import Fenic.ModelClient.Backoff
import Fenic.ModelClient.Isolation

/-!
# `ModelClient.BackoffDelay` — whether a backoff is waited for

`_handle_response` fails the request of a transient failure once the client has counted `max_backoffs` backoffs. The count belongs
to the client and to its whole life: nothing ever lowers it (`numBackoffs_le`), so a backoff still counts when the failure it
answered was recovered from. Where a response finds nothing counted and no failure waiting for its backoff, the request of a
failure fails only after more than `max_backoffs` failures since the last response (`fails_over_budget`).

`_maybe_backoff` runs after a request was dispatched or held back. A failure that is recorded while the worker pauses for the rate
limiter is followed by its delay (`dispatch_observes`). One that is recorded while the worker waits for requests is not: the worker
gets the failed request out of the retry queue and dispatches it before it looks at the failure (`retried_at_once`). And the sleep
of a backoff ends by forgetting every failure, that of the meantime too.
-/

namespace Fenic

namespace ModelClient

variable {Req Resp Key Exc : Type}

/-- The request of a transient failure fails only when there were more than `max_backoffs` failures since the last response, that
failure included. -/
def WithinBudget (c : Client Req Resp Key) (s : Timed Req Resp Key Exc) : TimedAction Req Key Exc × Rat → Prop
  | (.transient _ _ _, _) => c.maxBackoffs ≤ s.numBackoffs → c.maxBackoffs < s.failuresSinceSuccess + 1
  | _ => True

/-- A response comes when no backoff was counted and no failure waits for its backoff. -/
def RecoversNothing (s : Timed Req Resp Key Exc) : TimedAction Req Key Exc × Rat → Prop
  | (.system a, _) => a.succeeds = true → s.numBackoffs = 0 ∧ s.lastTransientExceptionTime ≤ 0
  | _ => True

instance (c : Client Req Resp Key) (s : Timed Req Resp Key Exc) : (a : TimedAction Req Key Exc × Rat) → Decidable (WithinBudget c s a)
  | (.transient _ _ _, _) => inferInstanceAs (Decidable (c.maxBackoffs ≤ s.numBackoffs → c.maxBackoffs < s.failuresSinceSuccess + 1))
  | (.system _, _) => .isTrue trivial
  | (.wake, _) => .isTrue trivial
  | (.maybeBackoff, _) => .isTrue trivial

instance (s : Timed Req Resp Key Exc) : (a : TimedAction Req Key Exc × Rat) → Decidable (RecoversNothing s a)
  | (.system a, _) =>
    inferInstanceAs (Decidable (a.succeeds = true → s.numBackoffs = 0 ∧ s.lastTransientExceptionTime ≤ 0))
  | (.transient _ _ _, _) => .isTrue trivial
  | (.wake, _) => .isTrue trivial
  | (.maybeBackoff, _) => .isTrue trivial

/-- A backoff that was counted, or is about to be, answers a failure since the last response. -/
structure Budgeted (s : Timed Req Resp Key Exc) : Prop where
  clock_pos : 0 < s.clock
  counted : s.numBackoffs ≤ s.failuresSinceSuccess
  recorded : 0 < s.lastTransientExceptionTime → s.numBackoffs + 1 ≤ s.failuresSinceSuccess
  sleeping : ∀ wakeTime, s.pause = .backingOff wakeTime → 0 < s.lastTransientExceptionTime

theorem maybeBackoff_backingOff {policy : BackoffPolicy} {s : Timed Req Resp Key Exc} {now wakeTime : Rat}
    (h : s.maybeBackoff policy now = .backingOff wakeTime) : 0 < s.lastTransientExceptionTime := by
  unfold Timed.maybeBackoff at h
  split at h
  · cases h
  · rename_i hlast
    exact not_le.mp hlast

/-- A step of the worker or of a task does not begin a backoff. -/
theorem pauseAfter_backingOff {pause : Pause} {now wakeTime : Rat} {a : SystemAction Req Key Exc}
    (h : pauseAfter pause now a = .backingOff wakeTime) : pause = .backingOff wakeTime := by
  unfold pauseAfter at h
  split at h
  · cases h
  · cases h
  · exact h

section

variable [DecidableEq Key] {policy : BackoffPolicy} {c : Client Req Resp Key} {s s' : Timed Req Resp Key Exc}

theorem Budgeted.step {a : TimedAction Req Key Exc × Rat} (h : Budgeted s) (hrecovers : RecoversNothing s a)
    (hstep : timedStep policy c s a = some s') : Budgeted s' := by
  obtain ⟨action, now⟩ := a
  obtain ⟨hclock, hclock', hmove⟩ := timedStep_move hstep
  have hpos : 0 < s'.clock := by
    rw [hclock']
    exact lt_of_lt_of_le h.clock_pos hclock
  cases hmove with
  | system a _ _ _ hcount hlast hpause _ hsince =>
    cases hsucceeds : a.succeeds with
    | true =>
      -- nothing was counted, so the response has nothing to forget
      obtain ⟨hzero, hnone⟩ := hrecovers hsucceeds
      refine ⟨hpos, ?_, ?_, ?_⟩
      · rw [hcount, hzero]
        exact Nat.zero_le _
      · rw [hlast]
        exact fun hrecorded => absurd hrecorded (not_lt.mpr hnone)
      · intro wakeTime hsleeping
        rw [hpause] at hsleeping
        rw [hlast]
        exact h.sleeping wakeTime (pauseAfter_backingOff hsleeping)
    | false =>
      rw [hsucceeds, if_neg Bool.false_ne_true] at hsince
      refine ⟨hpos, ?_, ?_, ?_⟩
      · rw [hcount, hsince]
        exact h.counted
      · rw [hcount, hsince, hlast]
        exact h.recorded
      · intro wakeTime hsleeping
        rw [hpause] at hsleeping
        rw [hlast]
        exact h.sleeping wakeTime (pauseAfter_backingOff hsleeping)
  | exceeded cancelled i e _ _ hcount hlast hpause _ hsince =>
    refine ⟨hpos, ?_, ?_, ?_⟩
    · rw [hcount, hsince]
      exact Nat.le_succ_of_le h.counted
    · rw [hcount, hsince, hlast]
      exact fun hrecorded => Nat.le_succ_of_le (h.recorded hrecorded)
    · rw [hpause, hlast]
      exact h.sleeping
  | recorded cancelled i e _ _ hcount hlast hpause _ hsince =>
    refine ⟨hpos, ?_, ?_, ?_⟩
    · rw [hcount, hsince]
      exact Nat.le_succ_of_le h.counted
    · rw [hcount, hsince]
      exact fun _ => Nat.succ_le_succ h.counted
    · intro _ _
      rw [hlast, ← hclock']
      exact hpos
  | refilled wakeTime hbefore heq =>
    subst heq
    exact ⟨hpos, h.counted, h.recorded, nofun⟩
  | backedOff wakeTime hbefore _ _ hpause hcount hlast _ hsince =>
    refine ⟨hpos, ?_, ?_, ?_⟩
    · rw [hcount, hsince]
      exact h.recorded (h.sleeping wakeTime hbefore)
    · rw [hlast]
      exact fun hrecorded => absurd hrecorded (lt_irrefl 0)
    · rw [hpause]
      nofun
  | backsOff hbefore heq =>
    subst heq
    exact ⟨hpos, h.counted, h.recorded, fun wakeTime hsleeping => maybeBackoff_backingOff hsleeping⟩

omit [DecidableEq Key] in
theorem Budgeted.withinBudget (h : Budgeted s) (a : TimedAction Req Key Exc × Rat) : WithinBudget c s a := by
  obtain ⟨action, now⟩ := a
  cases action with
  | transient cancelled i e =>
    intro hmax
    exact Nat.lt_succ_of_le (hmax.trans h.counted)
  | system a => trivial
  | wake => trivial
  | maybeBackoff => trivial

end

/-- **Where every response comes when nothing was counted, a request fails for too many retries only after more than `max_backoffs`
failures since the last response.** -/
theorem fails_over_budget [DecidableEq Key] (policy : BackoffPolicy) (c : Client Req Resp Key) (cache : List (Key × Resp))
    (start : Rat) (hstart : 0 < start) (actions : List (TimedAction Req Key Exc × Rat))
    (hrecovers : Transition.Along (timedStep policy c) RecoversNothing (timedInit cache start) actions) :
    Transition.Along (timedStep policy c) (WithinBudget c) (timedInit cache start) actions := by
  have hinit : Budgeted (timedInit cache start : Timed Req Resp Key Exc) :=
    ⟨hstart, Nat.zero_le _, fun hrecorded => absurd hrecorded (lt_irrefl 0), nofun⟩
  exact Transition.along_of (fun _ _ _ h hq hstep => h.step hq hstep) (fun _ _ h _ => h.withinBudget _) hinit hrecovers

/-! ### A failure that was recovered from -/

/-- The delays are one, two, four seconds and so on, by default. -/
def defaultPolicy : BackoffPolicy := ⟨1, 2⟩

/-- A thread makes a batch of one request. -/
def submitAt (t batch request : Nat) (now : Rat) : List (TimedAction Nat Nat String × Rat) :=
  [(.system (.client (.start t (singleBatch batch request) (fun _ => false))), now), (.system (.client (.check t)), now),
    (.system (.client (.submit t)), now), (.system (.client (.enqueue t)), now),
    (.system (.client (.submitted t)), now)]

/-- The worker, which waits, gets the request, dispatches it and finds no failure, and the task starts. -/
def dispatchAt (now : Rat) : List (TimedAction Nat Nat String × Rat) :=
  [(.system (.pop false), now), (.system (.resume false), now), (.system .loop, now), (.system .dispatch, now),
    (.maybeBackoff, now), (.system .endPass, now), (.system .removeProcessed, now), (.system .removeProcessed, now),
    (.system .loop, now), (.system (.startTask 0), now)]

/-- The request fails transiently, is dispatched again and answered during the backoff. -/
def recoverAt (failed recovered woken : Rat) : List (TimedAction Nat Nat String × Rat) :=
  [(.transient false 0 "throttled", failed), (.system (.pop true), failed), (.system (.resume false), failed),
    (.system .loop, failed), (.system .dispatch, failed), (.maybeBackoff, failed), (.system (.startTask 0), recovered),
    (.system (.client (.succeed 0 false)), recovered), (.wake, woken), (.system .endPass, woken),
    (.system .removeProcessed, woken), (.system .removeProcessed, woken), (.system .loop, woken)]

/-- A failure that was recovered from, and the request of a later batch. -/
def recoveredRun : List (TimedAction Nat Nat String × Rat) :=
  (.system .loop, 1) :: submitAt 0 1 7 1 ++ dispatchAt 1 ++ recoverAt 2 (5 / 2) 3 ++
    [(.system (.client (.collect 0)), 3), (.system (.client (.finish 0)), 3)] ++ submitAt 0 2 8 4 ++ dispatchAt 4

/-- A request is answered, and that of a later batch fails until the count is used up. -/
def throttledRun : List (TimedAction Nat Nat String × Rat) :=
  (.system .loop, 1) :: submitAt 0 1 7 1 ++ dispatchAt 1 ++
    [(.system (.client (.succeed 0 false)), 2), (.system (.client (.collect 0)), 2), (.system (.client (.finish 0)), 2)] ++
    submitAt 0 2 8 3 ++ dispatchAt 3 ++
    [(.transient false 0 "throttled", 4), (.system (.pop true), 4), (.system (.resume false), 4), (.system .loop, 4),
      (.system .dispatch, 4), (.maybeBackoff, 4), (.system (.startTask 0), 4), (.wake, 5), (.system .endPass, 5),
      (.system .removeProcessed, 5), (.system .removeProcessed, 5), (.system .loop, 5), (.transient false 0 "throttled", 6)]

theorem throttledRun_within :
    ((Transition.run (timedStep defaultPolicy echoClient) (timedInit [] 1) throttledRun).map
      fun s => (s.system.client.threadExceptions 0, s.failuresSinceSuccess)) = some (some ⟨2, "throttled"⟩, 2) ∧
    Transition.Along (timedStep defaultPolicy echoClient) (WithinBudget echoClient) (timedInit [] 1) throttledRun := by
  have hrecovers : Transition.Along (timedStep defaultPolicy echoClient) RecoversNothing (timedInit [] 1) throttledRun := by
    decide +kernel
  exact ⟨by decide +kernel, fails_over_budget defaultPolicy echoClient [] 1 (by decide) throttledRun hrecovers⟩

/-- **The first failure after a response fails its request.** -/
theorem recoveredRun_exceeds :
    ((Transition.run (timedStep defaultPolicy echoClient) (timedInit [] 1)
        (recoveredRun ++ [(.transient false 0 "throttled", 5)])).map
      fun s => (s.system.client.threadExceptions 0, s.failuresSinceSuccess)) = some (some ⟨2, "throttled"⟩, 1) ∧
    echoClient.maxBackoffs = 1 ∧
    ¬ Transition.Along (timedStep defaultPolicy echoClient) (WithinBudget echoClient) (timedInit [] 1)
      (recoveredRun ++ [(.transient false 0 "throttled", 5)]) := by
  refine ⟨?_, rfl, ?_⟩
  · decide +kernel
  · decide +kernel

/-! ## Whether a backoff is waited for -/

/-- A request is dispatched only after the delay of every failure recorded so far. -/
def DispatchObserves [DecidableEq Key] (policy : BackoffPolicy) (c : Client Req Resp Key) (s : Timed Req Resp Key Exc) :
    TimedAction Req Key Exc × Rat → Prop
  | (.system .dispatch, now) => (timedStep policy c s (.system .dispatch, now)).isSome → s.Observed now
  | _ => True

/-- A failure is recorded while the worker pauses for the rate limiter, or has ended. -/
def RecordedInPause (c : Client Req Resp Key) (s : Timed Req Resp Key Exc) : TimedAction Req Key Exc × Rat → Prop
  | (.transient _ _ _, _) =>
    c.maxBackoffs ≤ s.numBackoffs ∨ (∃ wakeTime, s.pause = .rateLimited wakeTime) ∨ s.system.worker = .ended
  | _ => True

/-- The delay of a failure is over, or `_maybe_backoff` will wait for it. -/
def Awaited (policy : BackoffPolicy) (s : Timed Req Resp Key Exc) (failure : RecordedFailure) : Prop :=
  failure.time + failure.delay ≤ s.clock ∨
    (0 < s.lastTransientExceptionTime ∧ failure.time ≤ s.lastTransientExceptionTime ∧
      failure.delay = policy.calculateBackoffTime s.numBackoffs)

/-- What each pause knows of the failures. -/
def Timed.Waits (policy : BackoffPolicy) (s : Timed Req Resp Key Exc) : Pause → Prop
  | .running => s.Observed s.clock
  | .rateLimited _ => ∀ failure ∈ s.failures, Awaited policy s failure
  | .checked => ∀ failure ∈ s.failures, Awaited policy s failure
  | .backingOff wakeTime => s.Observed (max wakeTime s.clock)

/-- The failures are in the past, and a worker that has not ended waits for their delays. -/
structure Delayed (policy : BackoffPolicy) (s : Timed Req Resp Key Exc) : Prop where
  clock_pos : 0 < s.clock
  past : ∀ failure ∈ s.failures, failure.time ≤ s.clock
  waits : s.system.worker = .ended ∨ s.Waits policy s.pause

theorem Timed.Observed.mono {s s' : Timed Req Resp Key Exc} {now now' : Rat} (h : s.Observed now)
    (hfailures : s'.failures = s.failures) (hle : now ≤ now') : s'.Observed now' := by
  intro failure hmem
  rw [hfailures] at hmem
  exact (h failure hmem).trans hle

section

variable {policy : BackoffPolicy} {s s' : Timed Req Resp Key Exc}

theorem Awaited.mono {failure : RecordedFailure} (h : Awaited policy s failure) (hclock : s.clock ≤ s'.clock)
    (hlast : s'.lastTransientExceptionTime = s.lastTransientExceptionTime) (hcount : s'.numBackoffs = s.numBackoffs) :
    Awaited policy s' failure := by
  unfold Awaited at h ⊢
  rw [hlast, hcount]
  exact h.imp_left (fun hover => hover.trans hclock)

/-- Time that passes leaves what a pause knows. -/
theorem Timed.Waits.mono (pause : Pause) (h : s.Waits policy pause) (hclock : s.clock ≤ s'.clock)
    (hlast : s'.lastTransientExceptionTime = s.lastTransientExceptionTime) (hcount : s'.numBackoffs = s.numBackoffs)
    (hfailures : s'.failures = s.failures) : s'.Waits policy pause := by
  cases pause with
  | running => exact Timed.Observed.mono h hfailures hclock
  | rateLimited _ | checked =>
    intro failure hmem
    exact (h failure (hfailures ▸ hmem)).mono hclock hlast hcount
  | backingOff wakeTime => exact Timed.Observed.mono h hfailures (max_le_max (le_refl _) hclock)

/-- After a step of the worker there is nothing to wait for, or what there was before. -/
theorem waits_pauseAfter {a : SystemAction Req Key Exc} {now : Rat} (h : s.Waits policy s.pause)
    (hworker : a.ofWorker → s.pause = .running) : s.Waits policy (pauseAfter s.pause now a) := by
  unfold pauseAfter
  split
  · rw [hworker rfl] at h
    exact fun failure hmem => .inl (h failure hmem)
  · rw [hworker rfl] at h
    exact fun failure hmem => .inl (h failure hmem)
  · exact h

/-- `_maybe_backoff` sleeps until every delay is over. -/
theorem waits_maybeBackoff {now : Rat} (hnow : s.clock ≤ now) (h : s.Waits policy .checked) :
    { s with clock := now }.Waits policy (s.maybeBackoff policy now) := by
  have hover (failure : RecordedFailure) (hmem : failure ∈ s.failures) (hnone : s.lastTransientExceptionTime ≤ 0) :
      failure.time + failure.delay ≤ s.clock :=
    (h failure hmem).resolve_right fun hawaited => absurd hawaited.1 (not_lt.mpr hnone)
  unfold Timed.maybeBackoff
  split
  next hnone => exact fun failure hmem => (hover failure hmem hnone).trans hnow
  next =>
      dsimp only
      split
      next =>
          intro failure hmem
          rcases h failure hmem with hdone | ⟨_, htime, hdelay⟩
          · exact (hdone.trans hnow).trans (le_max_right _ _)
          · have hsum : failure.time + failure.delay ≤
                now + (policy.calculateBackoffTime s.numBackoffs - (now - s.lastTransientExceptionTime)) := by
              linarith
            exact hsum.trans (le_max_left _ _)
      next hlong =>
          intro failure hmem
          rcases h failure hmem with hdone | ⟨_, htime, hdelay⟩
          · exact hdone.trans hnow
          · have hpassed := not_lt.mp hlong
            show failure.time + failure.delay ≤ now
            linarith

variable [DecidableEq Key] {c : Client Req Resp Key}

theorem Delayed.step {a : TimedAction Req Key Exc × Rat} (h : Delayed policy s) (hrecorded : RecordedInPause c s a)
    (hstep : timedStep policy c s a = some s') : Delayed policy s' := by
  obtain ⟨action, now⟩ := a
  obtain ⟨hclock, hclock', hmove⟩ := timedStep_move hstep
  have hle : s.clock ≤ s'.clock := by
    rw [hclock']
    exact hclock
  have hpos : 0 < s'.clock := lt_of_lt_of_le h.clock_pos hle
  have hpast : s'.failures = s.failures → ∀ failure ∈ s'.failures, failure.time ≤ s'.clock := by
    intro hfailures failure hmem
    exact (h.past failure (hfailures ▸ hmem)).trans hle
  cases hmove with
  | system a hworker _ hsystem hcount hlast hpause hfailures _ =>
    refine ⟨hpos, hpast hfailures, ?_⟩
    rcases h.waits with hended | hwaits
    · exact .inl (ended_systemStep hended hsystem)
    · right
      rw [hpause]
      exact (waits_pauseAfter hwaits hworker).mono _ hle hlast hcount hfailures
  | exceeded cancelled i e _ hended hcount hlast hpause hfailures _ =>
    refine ⟨hpos, hpast hfailures, h.waits.imp hended fun hwaits => ?_⟩
    rw [hpause]
    exact hwaits.mono _ hle hlast hcount hfailures
  | recorded cancelled i e hmax hended hcount hlast hpause hfailures _ =>
    refine ⟨hpos, ?_, ?_⟩
    · intro failure hmem
      rw [hfailures] at hmem
      rcases List.mem_cons.mp hmem with rfl | hmem
      · exact hclock'.ge
      · exact (h.past failure hmem).trans hle
    · rcases hrecorded.resolve_left hmax with ⟨wakeTime, hlimited⟩ | hworker
      · rcases h.waits with hended' | hwaits
        · exact .inl (hended hended')
        · right
          rw [hlimited] at hwaits
          rw [hpause, hlimited]
          intro failure hmem
          unfold Awaited
          rw [hlast, hcount]
          rw [hfailures] at hmem
          have hnow : 0 < now := lt_of_lt_of_le h.clock_pos hclock
          rcases List.mem_cons.mp hmem with rfl | hmem
          · exact .inr ⟨hnow, le_refl now, rfl⟩
          · -- the delay of an earlier failure now counts from the last one
            have hearlier : failure.time ≤ now := (h.past failure hmem).trans hclock
            exact (hwaits failure hmem).imp (fun hover => hover.trans hle) fun hawaited => ⟨hnow, hearlier, hawaited.2.2⟩
      · exact .inl (hended hworker)
  | refilled wakeTime hbefore heq =>
    subst heq
    refine ⟨hpos, hpast rfl, h.waits.imp id fun hwaits => ?_⟩
    rw [hbefore] at hwaits
    exact Timed.Waits.mono .checked hwaits hle rfl rfl rfl
  | backedOff wakeTime hbefore hwake hended hpause _ _ hfailures _ =>
    refine ⟨hpos, hpast hfailures, h.waits.imp hended fun hwaits => ?_⟩
    rw [hbefore] at hwaits
    rw [hpause]
    have hslept : max wakeTime s.clock ≤ s'.clock := max_le (hclock' ▸ hwake) hle
    exact Timed.Observed.mono hwaits hfailures hslept
  | backsOff hbefore heq =>
    subst heq
    refine ⟨hpos, hpast rfl, h.waits.imp id fun hwaits => ?_⟩
    rw [hbefore] at hwaits
    exact waits_maybeBackoff hclock hwaits

/-- A worker that has ended dispatches nothing, and one that goes through its requests waits for nothing. -/
theorem Delayed.dispatchObserves (h : Delayed policy s) (a : TimedAction Req Key Exc × Rat) : DispatchObserves policy c s a := by
  unfold DispatchObserves
  split
  · intro hsome
    obtain ⟨s', hstep⟩ := Option.isSome_iff_exists.mp hsome
    obtain ⟨hclock, -, hmove⟩ := timedStep_move hstep
    cases hmove with
    | system _ hworker _ hsystem _ _ _ _ _ =>
      rcases h.waits with hended | hwaits
      · obtain ⟨t, heffect, -⟩ := Option.map_eq_some_iff.mp hsystem
        have hnone : effect c s.system .dispatch = none := by
          show (loopStep s.system s.system.worker .dispatch).or (shutdownStep c s.system s.system.call .dispatch) = none
          rw [hended, loopStep_ended]
          cases s.system.call <;> rfl
        rw [hnone] at heffect
        cases heffect
      · rw [hworker rfl] at hwaits
        exact Timed.Observed.mono hwaits rfl hclock
  · trivial

end

/-- **Where every failure is recorded while the worker pauses for the rate limiter, a request is dispatched only after the delay
of every failure recorded before.** -/
theorem dispatch_observes [DecidableEq Key] (policy : BackoffPolicy) (c : Client Req Resp Key) (cache : List (Key × Resp))
    (start : Rat) (hstart : 0 < start) (actions : List (TimedAction Req Key Exc × Rat))
    (hrecorded : Transition.Along (timedStep policy c) (RecordedInPause c) (timedInit cache start) actions) :
    Transition.Along (timedStep policy c) (DispatchObserves policy c) (timedInit cache start) actions := by
  have hinit : Delayed policy (timedInit cache start : Timed Req Resp Key Exc) := ⟨hstart, nofun, .inr nofun⟩
  exact Transition.along_of (fun _ _ _ h hq hstep => h.step hq hstep) (fun _ _ h _ => h.dispatchObserves _) hinit hrecorded

/-! ## A failure while the worker waits -/

section

variable [DecidableEq Key] {policy : BackoffPolicy} {c : Client Req Resp Key}

end

/-! ### Failures in a pause, while the worker waits, and during a backoff -/

instance (s : Timed Req Resp Key Exc) (now : Rat) : Decidable (s.Observed now) :=
  inferInstanceAs (Decidable (∀ failure ∈ s.failures, failure.time + failure.delay ≤ now))

instance [DecidableEq Key] (policy : BackoffPolicy) (c : Client Req Resp Key) (s : Timed Req Resp Key Exc) :
    (a : TimedAction Req Key Exc × Rat) → Decidable (DispatchObserves policy c s a)
  | (.system a, now) =>
    match a with
    | .dispatch =>
      inferInstanceAs (Decidable ((timedStep policy c s (.system .dispatch, now)).isSome → s.Observed now))
    | .client _ | .loop | .pop _ | .resume _ | .skip | .failItem _ _ | .endPass | .removeProcessed | .startTask _
    | .callShutdown | .setEvent | .failPending _ | .clearPending | .drainRequests _ | .drainRetries _ | .cancelInFlight
    | .endCancelled _ _ | .completeShutdown => .isTrue trivial
  | (.transient _ _ _, _) => .isTrue trivial
  | (.wake, _) => .isTrue trivial
  | (.maybeBackoff, _) => .isTrue trivial

instance (pause : Pause) : Decidable (∃ wakeTime, pause = .rateLimited wakeTime) :=
  match pause with
  | .rateLimited wakeTime => .isTrue ⟨wakeTime, rfl⟩
  | .running => .isFalse nofun
  | .checked => .isFalse nofun
  | .backingOff _ => .isFalse nofun

instance (worker : Worker Req Key) : Decidable (worker = .ended) :=
  match worker with
  | .ended => .isTrue rfl
  | .looping => .isFalse nofun
  | .waiting => .isFalse nofun
  | .passing _ _ => .isFalse nofun
  | .removing _ => .isFalse nofun

instance (c : Client Req Resp Key) (s : Timed Req Resp Key Exc) :
    (a : TimedAction Req Key Exc × Rat) → Decidable (RecordedInPause c s a)
  | (.transient _ _ _, _) =>
    inferInstanceAs (Decidable
      (c.maxBackoffs ≤ s.numBackoffs ∨ (∃ wakeTime, s.pause = .rateLimited wakeTime) ∨ s.system.worker = .ended))
  | (.system _, _) => .isTrue trivial
  | (.wake, _) => .isTrue trivial
  | (.maybeBackoff, _) => .isTrue trivial

/-- Two requests are dispatched, and the rate limiter holds a third one back. -/
def heldBack : List (TimedAction Nat Nat String × Rat) :=
  (.system .loop, 1) :: submitAt 0 1 7 1 ++ dispatchAt 1 ++ submitAt 1 2 8 1 ++ dispatchAt 1 ++ submitAt 2 3 9 1 ++
    [(.system (.pop false), 2), (.system (.resume false), 2), (.system .loop, 2), (.system .skip, 2)]

/-- In the pause one request in flight fails, and the third one is dispatched after the backoff. -/
def pausedRun : List (TimedAction Nat Nat String × Rat) :=
  heldBack ++ [(.transient false 0 "throttled", 2), (.wake, 5 / 2), (.maybeBackoff, 5 / 2), (.wake, 3), (.system .endPass, 3),
    (.system .removeProcessed, 3), (.system .loop, 3), (.system .dispatch, 3)]

theorem pausedRun_observes :
    ((Transition.run (timedStep defaultPolicy echoClient) (timedInit [] 1) pausedRun).map
      fun s => (s.failures, s.clock)) = some ([⟨2, 1⟩], 3) ∧
    Transition.Along (timedStep defaultPolicy echoClient) (DispatchObserves defaultPolicy echoClient) (timedInit [] 1) pausedRun := by
  have hrecorded : Transition.Along (timedStep defaultPolicy echoClient) (RecordedInPause echoClient) (timedInit [] 1) pausedRun := by
    decide +kernel
  exact ⟨by decide +kernel, dispatch_observes defaultPolicy echoClient [] 1 (by decide) pausedRun hrecorded⟩

/-- A request fails while the worker waits, and it is dispatched again at once. -/
def retriedRun : List (TimedAction Nat Nat String × Rat) :=
  (.system .loop, 1) :: submitAt 0 1 7 1 ++ dispatchAt 1 ++ [(.transient false 0 "throttled", 2), (.system (.pop true), 2),
    (.system (.resume false), 2), (.system .loop, 2), (.system .dispatch, 2)]

/-- The second request in flight fails during the backoff of the first one. -/
def forgottenRun : List (TimedAction Nat Nat String × Rat) :=
  heldBack ++ [(.transient false 0 "throttled", 2), (.wake, 5 / 2), (.maybeBackoff, 5 / 2), (.transient false 0 "throttled", 5 / 2),
    (.wake, 3), (.system .endPass, 3), (.system .removeProcessed, 3), (.system .loop, 3), (.system .dispatch, 3)]

/-- **A request is dispatched at the time of its failure, whose delay is a second, and another one half a second after a failure.** -/
theorem retriedRun_ignores :
    ((Transition.run (timedStep defaultPolicy echoClient) (timedInit [] 1) retriedRun).map
      fun s => (s.failures, s.clock)) = some ([⟨2, 1⟩], 2) ∧
    ¬ Transition.Along (timedStep defaultPolicy echoClient) (DispatchObserves defaultPolicy echoClient) (timedInit [] 1)
      retriedRun ∧
    ((Transition.run (timedStep defaultPolicy echoClient) (timedInit [] 1) forgottenRun).map
      fun s => (s.failures, s.clock)) = some ([⟨5 / 2, 1⟩, ⟨2, 1⟩], 3) ∧
    ¬ Transition.Along (timedStep defaultPolicy echoClient) (DispatchObserves defaultPolicy echoClient) (timedInit [] 1)
      forgottenRun := by
  refine ⟨?_, ?_, ?_, ?_⟩
  · decide +kernel
  · decide +kernel
  · decide +kernel
  · decide +kernel

end ModelClient

end Fenic
