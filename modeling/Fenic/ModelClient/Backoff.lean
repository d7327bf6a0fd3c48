import Fenic.ModelClient.Shutdown
import Fenic.RateLimit.Bucket

/-!
# `ModelClient.Backoff` — the worker with a clock

The steps of `ModelClient.Shutdown`, each at a time, with the pauses of the worker: `_process_queue` sleeps when the rate limiter
does not let a request through, and then, and after every dispatch, it runs `_maybe_backoff`, which sleeps when a transient
failure was recorded and its delay is not over.

The tasks and the worker are on one event loop, so a task goes on only while the worker is suspended. A time is that of the clock
of the machine, which does not go back.
-/

namespace Fenic

namespace ModelClient

variable {Req Resp Key Exc : Type}

/-! ## States -/

structure BackoffPolicy where
  initialBackoffSeconds : Rat
  backoffFactor : Rat

/-- `_calculate_backoff_time`. -/
def BackoffPolicy.calculateBackoffTime (policy : BackoffPolicy) (backoffIteration : Nat) : Rat :=
  min (policy.initialBackoffSeconds * policy.backoffFactor ^ backoffIteration) RateLimit.minuteInSeconds

/-- `MILLISECOND_IN_SECONDS`. -/
def millisecondInSeconds : Rat := 1 / 1000

/-- Where the worker is within the body of the loop over the pending requests. -/
inductive Pause where
  /-- At a step of `ModelClient.Shutdown`. -/
  | running
  /-- The rate limiter did not let the request through, and the worker sleeps until then. -/
  | rateLimited (wakeTime : Rat)
  /-- Before `_maybe_backoff`. -/
  | checked
  /-- `_maybe_backoff` sleeps until then. -/
  | backingOff (wakeTime : Rat)
  deriving DecidableEq

/-- A transient failure that was recorded, and the delay computed for it. -/
structure RecordedFailure where
  time : Rat
  delay : Rat
  deriving DecidableEq

/-- The client with a clock. -/
structure Timed (Req Resp Key Exc : Type) where
  system : System Req Resp Key Exc
  clock : Rat
  lastTransientExceptionTime : Rat
  pause : Pause
  /-- Every failure recorded so far. -/
  failures : List RecordedFailure
  /-- The transient failures since the last response, recorded or not. -/
  failuresSinceSuccess : Nat

namespace Timed

def numBackoffs (s : Timed Req Resp Key Exc) : Nat :=
  s.system.client.numBackoffs

/-- The worker awaits something. -/
def suspended (s : Timed Req Resp Key Exc) : Bool :=
  match s.pause, s.system.worker with
  | .rateLimited _, _ => true
  | .backingOff _, _ => true
  | .running, .waiting => true
  | .running, .ended => true
  | _, _ => false

/-- Every failure recorded so far is followed by its delay. -/
def Observed (s : Timed Req Resp Key Exc) (now : Rat) : Prop :=
  ∀ failure ∈ s.failures, failure.time + failure.delay ≤ now

end Timed

def timedInit (cache : List (Key × Resp)) (start : Rat) : Timed Req Resp Key Exc where
  system := systemInit cache
  clock := start
  lastTransientExceptionTime := 0
  pause := .running
  failures := []
  failuresSinceSuccess := 0

/-! ## Steps -/

/-- An action of the client with a clock. -/
inductive TimedAction (Req Key Exc : Type) where
  /-- A step of `ModelClient.Shutdown` that is none of the following. -/
  | system (a : SystemAction Req Key Exc)
  /-- The transient failure of a task in flight, or of one that was cancelled when it had failed already. -/
  | transient (cancelled : Bool) (i : Nat) (e : Exc)
  /-- The end of a sleep. -/
  | wake
  /-- `_maybe_backoff`, up to its sleep. -/
  | maybeBackoff

/-- The action is one of the worker. -/
def SystemAction.ofWorker : SystemAction Req Key Exc → Bool
  | .loop => true
  | .pop _ => true
  | .resume _ => true
  | .dispatch => true
  | .skip => true
  | .failItem _ _ => true
  | .endPass => true
  | .removeProcessed => true
  | _ => false

/-- The action is one of a task on the event loop. -/
def SystemAction.ofTask : SystemAction Req Key Exc → Bool
  | .client a => a.thread.isNone
  | .startTask _ => true
  | .setEvent => true
  | .cancelInFlight => true
  | .endCancelled _ _ => true
  | _ => false

/-- The action ends with a response of the provider. -/
def SystemAction.succeeds : SystemAction Req Key Exc → Bool
  | .client (.succeed _ _) => true
  | .client (.succeedThenFail _ _ _) => true
  | .endCancelled _ (.answered _) => true
  | _ => false

/-- The action is left to the clock: `_maybe_backoff` counts a backoff, and a transient failure is recorded. Nothing raises between
the creation of a task and the next request, so no request fails after its task was created. -/
def SystemAction.isTimed : SystemAction Req Key Exc → Bool
  | .client .backoff => true
  | .client (.transient _ _) => true
  | .failItem true _ => true
  | _ => false

/-- What the worker does after one of its steps. -/
def pauseAfter (pause : Pause) (now : Rat) : SystemAction Req Key Exc → Pause
  | .dispatch => .checked
  | .skip => .rateLimited (now + millisecondInSeconds)
  | _ => pause

/-- The transient failure of a task, as a step of `ModelClient.Shutdown`; `exceeded` says whether the request fails. -/
def transientAction (cancelled exceeded : Bool) (i : Nat) (e : Exc) : SystemAction Req Key Exc :=
  match cancelled, exceeded with
  | false, _ => .client (.transient i e)
  | true, true => .endCancelled i (.raised e)
  | true, false => .endCancelled i .retried

/-- `_maybe_backoff`, up to its sleep. -/
def Timed.maybeBackoff (policy : BackoffPolicy) (s : Timed Req Resp Key Exc) (now : Rat) : Pause :=
  if s.lastTransientExceptionTime ≤ 0 then .running
  else
    let backoffTime := policy.calculateBackoffTime s.numBackoffs
    let timeSinceLastTransientException := now - s.lastTransientExceptionTime
    if timeSinceLastTransientException < backoffTime then .backingOff (now + (backoffTime - timeSinceLastTransientException))
    else .running

section

variable [DecidableEq Key]

/-- What an action does at a time. -/
def timedEffect (policy : BackoffPolicy) (c : Client Req Resp Key) (s : Timed Req Resp Key Exc) (now : Rat) :
    TimedAction Req Key Exc → Option (Timed Req Resp Key Exc)
  | .system a =>
    if a.isTimed then none
    else if a.ofWorker && s.pause ≠ .running then none
    else if a.ofTask && !s.suspended then none
    else (systemStep c s.system a).map fun system =>
      { s with
        system := system
        pause := pauseAfter s.pause now a
        failuresSinceSuccess := if a.succeeds then 0 else s.failuresSinceSuccess }
  | .transient cancelled i e =>
    if !s.suspended then none
    else if c.maxBackoffs ≤ s.numBackoffs then
      (systemStep c s.system (transientAction cancelled true i e)).map fun system =>
        { s with system := system, failuresSinceSuccess := s.failuresSinceSuccess + 1 }
    else
      (systemStep c s.system (transientAction cancelled false i e)).map fun system =>
        { s with
          system := system
          lastTransientExceptionTime := now
          failures := ⟨now, policy.calculateBackoffTime s.numBackoffs⟩ :: s.failures
          failuresSinceSuccess := s.failuresSinceSuccess + 1 }
  | .wake =>
    match s.pause with
    | .rateLimited wakeTime => if wakeTime ≤ now then some { s with pause := .checked } else none
    | .backingOff wakeTime =>
      if wakeTime ≤ now then
        (systemStep c s.system (.client .backoff)).map fun system =>
          { s with system := system, lastTransientExceptionTime := 0, pause := .running }
      else none
    | _ => none
  | .maybeBackoff => if s.pause = .checked then some { s with pause := s.maybeBackoff policy now } else none

/-- One step, at a time that is not before that of the last one. -/
def timedStep (policy : BackoffPolicy) (c : Client Req Resp Key) (s : Timed Req Resp Key Exc)
    (a : TimedAction Req Key Exc × Rat) : Option (Timed Req Resp Key Exc) :=
  if a.2 < s.clock then none else (timedEffect policy c s a.2 a.1).map fun s' => { s' with clock := a.2 }

/-! ## The count of the backoffs -/

variable {c : Client Req Resp Key}

omit [DecidableEq Key] in
theorem numBackoffs_storeResponse (s : State Req Resp Key Exc) (item : QueueItem Req Key) (stored : Bool) :
    (s.storeResponse c item stored).numBackoffs = s.numBackoffs := by
  unfold State.storeResponse
  split
  · split <;> rfl
  · rfl

omit [DecidableEq Key] in
theorem numBackoffs_workerStep {s s' : State Req Resp Key Exc} {a : Action Req Key Exc} (ha : a ≠ .backoff)
    (hstep : workerStep c s a = some s') : s'.numBackoffs = s.numBackoffs := by
  cases a
  case getQueued retry request =>
    unfold workerStep at hstep
    dsimp only at hstep
    split at hstep <;> cases hstep
    rfl
  case transient i e =>
    obtain ⟨item, -, rfl⟩ := Option.map_eq_some_iff.mp hstep
    split <;> rfl
  case succeed i stored =>
    obtain ⟨item, -, rfl⟩ := Option.map_eq_some_iff.mp hstep
    exact numBackoffs_storeResponse (s.setQueues _) item stored
  case succeedThenFail i stored e =>
    obtain ⟨item, -, rfl⟩ := Option.map_eq_some_iff.mp hstep
    exact numBackoffs_storeResponse (s.setQueues _) item stored
  case callback f =>
    unfold workerStep at hstep
    dsimp only at hstep
    split at hstep
    · obtain ⟨fut, -, rfl⟩ := Option.map_eq_some_iff.mp hstep
      rfl
    · cases hstep
  case backoff => exact absurd rfl ha
  case dispatch | failPending | failDispatched | drainRequest | drainRetry | timeout | fatal =>
    obtain ⟨item, -, rfl⟩ := Option.map_eq_some_iff.mp hstep
    rfl
  all_goals cases hstep

/-- Only `_maybe_backoff` counts a backoff. -/
theorem numBackoffs_step {s s' : State Req Resp Key Exc} {a : Action Req Key Exc} (ha : a ≠ .backoff)
    (hstep : step c s a = some s') : s'.numBackoffs = s.numBackoffs := by
  unfold step at hstep
  split at hstep
  · -- a thread
    unfold threadStep at hstep
    split at hstep
    · split at hstep <;> cases hstep
      rfl
    · split at hstep
      · split at hstep <;> cases hstep <;> rfl
      · cases hstep
    · obtain ⟨request, -, rfl⟩ := Option.map_eq_some_iff.mp hstep
      unfold submitRequest
      split
      · rfl
      · split
        · rfl
        · dsimp only
          split <;> rfl
    · split at hstep <;> cases hstep
      rfl
    · split at hstep <;> cases hstep
      rfl
    · split at hstep <;> cases hstep <;> rfl
    · split at hstep <;> cases hstep
      rfl
    all_goals cases hstep <;> rfl
  · -- the worker or a task
    exact numBackoffs_workerStep ha hstep

variable {s s' : System Req Resp Key Exc} {a : SystemAction Req Key Exc}

omit [DecidableEq Key] in
theorem numBackoffs_loopStep {worker : Worker Req Key}
    (hstep : loopStep s worker a = some s') : s'.client.numBackoffs = s.client.numBackoffs := by
  unfold loopStep at hstep
  split at hstep
  all_goals try split at hstep
  all_goals cases hstep <;> rfl

omit [DecidableEq Key] in
theorem loopStep_ended (s : System Req Resp Key Exc) (a : SystemAction Req Key Exc) : loopStep s .ended a = none := by
  cases a <;> rfl

omit [DecidableEq Key] in
/-- The call of `shutdown` counts no backoff and leaves the worker where it is. -/
theorem shutdownStep_keeps {call : ShutdownCall}
    (hstep : shutdownStep c s call a = some s') :
    s'.client.numBackoffs = s.client.numBackoffs ∧ s'.worker = s.worker := by
  unfold shutdownStep at hstep
  split at hstep
  case h_5 =>
    split at hstep
    next client hdrain =>
        cases hstep
        exact ⟨numBackoffs_workerStep (by nofun) hdrain, rfl⟩
    next =>
        cases hstep
        exact ⟨rfl, rfl⟩
  case h_6 =>
    split at hstep
    next client hdrain =>
        cases hstep
        exact ⟨numBackoffs_workerStep (by nofun) hdrain, rfl⟩
    next =>
        cases hstep
        exact ⟨rfl, rfl⟩
  all_goals try split at hstep
  all_goals cases hstep <;> exact ⟨rfl, rfl⟩

omit [DecidableEq Key] in
theorem endCancelledTask_keeps (s : System Req Resp Key Exc) (item : QueueItem Req Key) (how : CancelledEnd Exc) :
    (endCancelledTask c s item how).client.numBackoffs = s.client.numBackoffs ∧
      (endCancelledTask c s item how).worker = s.worker := by
  cases how with
  | raised e => exact ⟨rfl, rfl⟩
  | answered stored => exact ⟨numBackoffs_storeResponse s.client item stored, rfl⟩
  | retried => exact ⟨rfl, rfl⟩

theorem numBackoffs_systemStep (ha : a ≠ .client .backoff)
    (hstep : systemStep c s a = some s') : s'.client.numBackoffs = s.client.numBackoffs := by
  obtain ⟨t, heffect, rfl⟩ := Option.map_eq_some_iff.mp hstep
  show t.client.numBackoffs = s.client.numBackoffs
  unfold effect at heffect
  split at heffect
  · rename_i action
    split at heffect
    · obtain ⟨client, hclient, rfl⟩ := Option.map_eq_some_iff.mp heffect
      exact numBackoffs_step (fun h => ha (congrArg _ h)) hclient
    · cases heffect
  · obtain ⟨item, -, rfl⟩ := Option.map_eq_some_iff.mp heffect
    rfl
  · split at heffect <;> cases heffect
    rfl
  · obtain ⟨item, -, rfl⟩ := Option.map_eq_some_iff.mp heffect
    exact (endCancelledTask_keeps _ item _).1
  · rcases Option.or_eq_some_iff.mp heffect with hloop | ⟨-, hcall⟩
    · exact numBackoffs_loopStep hloop
    · exact (shutdownStep_keeps hcall).1

/-- `_maybe_backoff` counts one. -/
theorem numBackoffs_backoff (hstep : systemStep c s (.client .backoff) = some s') :
    s'.client.numBackoffs = s.client.numBackoffs + 1 := by
  cases hstep
  rfl

/-- A worker that has ended stays so. -/
theorem ended_systemStep (hended : s.worker = .ended)
    (hstep : systemStep c s a = some s') : s'.worker = .ended := by
  obtain ⟨t, heffect, rfl⟩ := Option.map_eq_some_iff.mp hstep
  show t.worker = .ended
  unfold effect at heffect
  split at heffect
  · split at heffect
    · obtain ⟨client, -, rfl⟩ := Option.map_eq_some_iff.mp heffect
      exact hended
    · cases heffect
  · obtain ⟨item, -, rfl⟩ := Option.map_eq_some_iff.mp heffect
    exact hended
  · split at heffect <;> cases heffect
    exact hended
  · obtain ⟨item, -, rfl⟩ := Option.map_eq_some_iff.mp heffect
    exact (endCancelledTask_keeps _ item _).2.trans hended
  · rcases Option.or_eq_some_iff.mp heffect with hloop | ⟨-, hcall⟩
    · rw [hended, loopStep_ended] at hloop
      cases hloop
    · exact (shutdownStep_keeps hcall).2.trans hended

/-! ## What a step does -/

/-- What an action does to the clock, the pauses and the failures. -/
inductive TimedMove (policy : BackoffPolicy) (c : Client Req Resp Key) (s s' : Timed Req Resp Key Exc) (now : Rat) :
    TimedAction Req Key Exc → Prop
  | system (a : SystemAction Req Key Exc) (hworker : a.ofWorker → s.pause = .running) (htask : a.ofTask → s.suspended)
      (hstep : systemStep c s.system a = some s'.system) (hcount : s'.numBackoffs = s.numBackoffs)
      (hlast : s'.lastTransientExceptionTime = s.lastTransientExceptionTime) (hpause : s'.pause = pauseAfter s.pause now a)
      (hfailures : s'.failures = s.failures)
      (hsince : s'.failuresSinceSuccess = if a.succeeds then 0 else s.failuresSinceSuccess) : TimedMove policy c s s' now (.system a)
  | exceeded (cancelled : Bool) (i : Nat) (e : Exc) (hmax : c.maxBackoffs ≤ s.numBackoffs)
      (hended : s.system.worker = .ended → s'.system.worker = .ended) (hcount : s'.numBackoffs = s.numBackoffs)
      (hlast : s'.lastTransientExceptionTime = s.lastTransientExceptionTime) (hpause : s'.pause = s.pause)
      (hfailures : s'.failures = s.failures) (hsince : s'.failuresSinceSuccess = s.failuresSinceSuccess + 1) :
      TimedMove policy c s s' now (.transient cancelled i e)
  | recorded (cancelled : Bool) (i : Nat) (e : Exc) (hmax : ¬ c.maxBackoffs ≤ s.numBackoffs)
      (hended : s.system.worker = .ended → s'.system.worker = .ended) (hcount : s'.numBackoffs = s.numBackoffs)
      (hlast : s'.lastTransientExceptionTime = now) (hpause : s'.pause = s.pause)
      (hfailures : s'.failures = ⟨now, policy.calculateBackoffTime s.numBackoffs⟩ :: s.failures)
      (hsince : s'.failuresSinceSuccess = s.failuresSinceSuccess + 1) : TimedMove policy c s s' now (.transient cancelled i e)
  | refilled (wakeTime : Rat) (hbefore : s.pause = .rateLimited wakeTime) (heq : s' = { s with pause := .checked, clock := now }) :
      TimedMove policy c s s' now .wake
  | backedOff (wakeTime : Rat) (hbefore : s.pause = .backingOff wakeTime) (hwake : wakeTime ≤ now)
      (hended : s.system.worker = .ended → s'.system.worker = .ended) (hpause : s'.pause = .running)
      (hcount : s'.numBackoffs = s.numBackoffs + 1) (hlast : s'.lastTransientExceptionTime = 0)
      (hfailures : s'.failures = s.failures) (hsince : s'.failuresSinceSuccess = s.failuresSinceSuccess) :
      TimedMove policy c s s' now .wake
  | backsOff (hbefore : s.pause = .checked) (heq : s' = { s with pause := s.maybeBackoff policy now, clock := now }) :
      TimedMove policy c s s' now .maybeBackoff

omit [DecidableEq Key] in
theorem transientAction_ne_backoff (cancelled exceeded : Bool) (i : Nat) (e : Exc) :
    (transientAction cancelled exceeded i e : SystemAction Req Key Exc) ≠ .client .backoff := by
  cases cancelled <;> cases exceeded <;> nofun

/-- **What a step does.** -/
theorem timedStep_move {policy : BackoffPolicy} {s s' : Timed Req Resp Key Exc} {a : TimedAction Req Key Exc × Rat}
    (hstep : timedStep policy c s a = some s') : s.clock ≤ a.2 ∧ s'.clock = a.2 ∧ TimedMove policy c s s' a.2 a.1 := by
  obtain ⟨action, now⟩ := a
  unfold timedStep at hstep
  split at hstep
  · cases hstep
  rename_i hclock
  obtain ⟨t, heffect, rfl⟩ := Option.map_eq_some_iff.mp hstep
  refine ⟨not_lt.mp hclock, rfl, ?_⟩
  cases action with
  | system a =>
    unfold timedEffect at heffect
    dsimp only at heffect
    split at heffect
    · cases heffect
    rename_i htimed
    split at heffect
    · cases heffect
    rename_i hworker
    split at heffect
    · cases heffect
    rename_i htask
    obtain ⟨system, hsystem, rfl⟩ := Option.map_eq_some_iff.mp heffect
    refine .system a ?_ ?_ hsystem (numBackoffs_systemStep ?_ hsystem) rfl rfl rfl rfl
    · intro ha
      simpa [ha] using hworker
    · intro ha
      simpa [ha] using htask
    · rintro rfl
      exact htimed rfl
  | transient cancelled i e =>
    unfold timedEffect at heffect
    dsimp only at heffect
    split at heffect
    · cases heffect
    split at heffect
    next hmax =>
        obtain ⟨system, hsystem, rfl⟩ := Option.map_eq_some_iff.mp heffect
        exact .exceeded cancelled i e hmax (fun hended => ended_systemStep hended hsystem)
          (numBackoffs_systemStep (transientAction_ne_backoff _ _ _ _) hsystem) rfl rfl rfl rfl
    next hmax =>
        obtain ⟨system, hsystem, rfl⟩ := Option.map_eq_some_iff.mp heffect
        exact .recorded cancelled i e hmax (fun hended => ended_systemStep hended hsystem)
          (numBackoffs_systemStep (transientAction_ne_backoff _ _ _ _) hsystem) rfl rfl rfl rfl
  | wake =>
    unfold timedEffect at heffect
    dsimp only at heffect
    split at heffect
    next wakeTime hpause =>
        split at heffect <;> cases heffect
        exact .refilled wakeTime hpause rfl
    next wakeTime hpause =>
        split at heffect
        next hwake =>
            obtain ⟨system, hsystem, rfl⟩ := Option.map_eq_some_iff.mp heffect
            exact .backedOff wakeTime hpause hwake (fun hended => ended_systemStep hended hsystem) rfl (numBackoffs_backoff hsystem) rfl rfl rfl
        next => cases heffect
    next => cases heffect
  | maybeBackoff =>
    unfold timedEffect at heffect
    dsimp only at heffect
    split at heffect <;> cases heffect
    rename_i hpause
    exact .backsOff hpause rfl

end

end ModelClient

end Fenic
