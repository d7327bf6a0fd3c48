import Fenic.Lib.Transition
import Mathlib.Data.List.Basic
import Mathlib.Data.List.Nodup

/-!
# `AsyncUdf.Stream` — the stream of an asynchronous function

`AsyncUDFSyncStream` starts a task for each item, up to a number of pending tasks and of results in its buffer, and yields the
results in the order of the items. The loop of `_call_batch_async` is a small-step system: `advance` runs the loop to its next
decision, `wake` hands it the tasks that were done when `asyncio.wait` returned, in the order in which it sees them.

`call` is the outcome of each task, a value or an exception. In which order the tasks complete is up to the run.
-/

namespace Fenic

namespace AsyncUdf

/-- `HARD_BUFFER_LIMIT`. -/
def hardBufferLimit : Nat := 50000

/-- `DEFAULT_BUFFER_MULTIPLIER`. -/
def defaultBufferMultiplier : Nat := 10

/-- `HARD_PENDING_LIMIT`. -/
def hardPendingLimit : Nat := 1000

/-- `DEFAULT_PENDING_MULTIPLIER`. -/
def defaultPendingMultiplier : Nat := 3

/-- The bounds of the two dictionaries. -/
structure StreamLimits where
  maxBufferSize : Nat
  maxPending : Nat
  deriving DecidableEq

/-- `__init__`. A semaphore takes no number below zero. -/
def StreamLimits.new (maxConcurrency : Nat) : StreamLimits where
  maxBufferSize := min hardBufferLimit (defaultBufferMultiplier * maxConcurrency)
  maxPending := min hardPendingLimit (defaultPendingMultiplier * maxConcurrency)

/-- Where the generator stands. -/
inductive StreamPhase where
  /-- In a loop over `can_schedule_more()`, before the main loop or at its end. -/
  | scheduling
  /-- At the condition of the main loop. -/
  | checking
  /-- In the loop that yields. -/
  | yielding
  /-- At `asyncio.wait`. -/
  | waiting
  | finished
  /-- The task to wait for was not found. -/
  | failed
  deriving DecidableEq

/-- `itemsIter` is what `enumerate` has left, from `nextIdx` on. The two dictionaries are lists of their items. -/
structure StreamState (α β : Type) where
  phase : StreamPhase
  nextIdx : Nat
  itemsIter : List α
  pending : List (Nat × α)
  results : List (Nat × β)
  nextIdxToYield : Nat
  exhausted : Bool
  /-- What was yielded so far. -/
  yielded : List β
  /-- The tasks that were pending when the loop ended. -/
  cancelled : List (Nat × α)
  deriving DecidableEq

namespace StreamState

variable {α β : Type}

def init (items : List α) : StreamState α β where
  phase := .scheduling
  nextIdx := 0
  itemsIter := items
  pending := []
  results := []
  nextIdxToYield := 0
  exhausted := false
  yielded := []
  cancelled := []

/-- `can_schedule_more`. -/
def canScheduleMore (limits : StreamLimits) (state : StreamState α β) : Bool :=
  !state.exhausted && decide (state.pending.length < limits.maxPending) &&
    decide (state.results.length < limits.maxBufferSize)

/-- A turn of the loop that schedules. -/
def schedule (limits : StreamLimits) (state : StreamState α β) : StreamState α β :=
  if state.canScheduleMore limits then
    match state.itemsIter with
    | [] => { state with exhausted := true, phase := .checking }
    | item :: items =>
      { state with
        nextIdx := state.nextIdx + 1
        itemsIter := items
        pending := state.pending ++ [(state.nextIdx, item)] }
  else { state with phase := .checking }

/-- The end of the loop: `_cancel_pending_tasks`. -/
def finish (state : StreamState α β) : StreamState α β :=
  { state with phase := .finished, pending := [], cancelled := state.cancelled ++ state.pending }

/-- The condition of the main loop. -/
def check (state : StreamState α β) : StreamState α β :=
  if state.pending.isEmpty && state.results.isEmpty then state.finish else { state with phase := .yielding }

/-- A turn of the loop that yields. -/
def yieldNext (state : StreamState α β) : StreamState α β :=
  match state.results.lookup state.nextIdxToYield with
  | some result =>
    { state with
      results := state.results.filter fun entry => entry.1 ≠ state.nextIdxToYield
      yielded := state.yielded ++ [result]
      nextIdxToYield := state.nextIdxToYield + 1 }
  | none => if state.pending.isEmpty then state.finish else { state with phase := .waiting }

/-- The indices of the tasks to wait for, or no such task. -/
def tasksToWait (limits : StreamLimits) (state : StreamState α β) : Option (List Nat) :=
  if limits.maxBufferSize ≤ state.results.length then
    (state.pending.lookup state.nextIdxToYield).map fun _ => [state.nextIdxToYield]
  else some (state.pending.map Prod.fst)

/-- A task that is done moves to the results. -/
def complete (call : Nat → α → β) (state : StreamState α β) (idx : Nat) : StreamState α β :=
  match state.pending.lookup idx with
  | some item =>
    { state with
      results := state.results ++ [(idx, call idx item)]
      pending := state.pending.filter fun entry => entry.1 ≠ idx }
  | none => state

end StreamState

inductive StreamAction where
  | advance
  /-- The indices of the tasks that are done. -/
  | wake (done : List Nat)
  deriving DecidableEq

/-- What the wait returns: some of the tasks that it waited for, and at least one. -/
def IsDone (tasks done : List Nat) : Prop := done ≠ [] ∧ done.Nodup ∧ ∀ idx ∈ done, idx ∈ tasks

instance (tasks done : List Nat) : Decidable (IsDone tasks done) := inferInstanceAs (Decidable (_ ∧ _ ∧ _))

variable {α β : Type}

/-- A step. The generator waits as long as no task is done. -/
def streamStep (call : Nat → α → β) (limits : StreamLimits) (state : StreamState α β) :
    StreamAction → Option (StreamState α β)
  | .advance =>
    match state.phase with
    | .scheduling => some (state.schedule limits)
    | .checking => some state.check
    | .yielding => some state.yieldNext
    | .waiting =>
      match state.tasksToWait limits with
      | none => some { state with phase := .failed }
      | some _ => none
    | .finished => none
    | .failed => none
  | .wake done =>
    match state.phase, state.tasksToWait limits with
    | .waiting, some tasks =>
      if IsDone tasks done then some { done.foldl (StreamState.complete call) state with phase := .scheduling } else none
    | _, _ => none

theorem streamStep_cases {call : Nat → α → β} {limits : StreamLimits} {state state' : StreamState α β}
    {action : StreamAction} (h : streamStep call limits state action = some state') :
    (action = .advance ∧ state.phase = .scheduling ∧ state' = state.schedule limits) ∨
    (action = .advance ∧ state.phase = .checking ∧ state' = state.check) ∨
    (action = .advance ∧ state.phase = .yielding ∧ state' = state.yieldNext) ∨
    (action = .advance ∧ state.phase = .waiting ∧ state.tasksToWait limits = none ∧ state' = { state with phase := .failed }) ∨
    ∃ done tasks, action = .wake done ∧ state.phase = .waiting ∧ state.tasksToWait limits = some tasks ∧ IsDone tasks done ∧
      state' = { done.foldl (StreamState.complete call) state with phase := .scheduling } := by
  cases action with
  | advance =>
    dsimp only [streamStep] at h
    split at h
    next hphase =>
        cases h
        exact .inl ⟨rfl, hphase, rfl⟩
    next hphase =>
        cases h
        exact .inr (.inl ⟨rfl, hphase, rfl⟩)
    next hphase =>
        cases h
        exact .inr (.inr (.inl ⟨rfl, hphase, rfl⟩))
    next hphase =>
        split at h
        next htasks =>
            cases h
            exact .inr (.inr (.inr (.inl ⟨rfl, hphase, htasks, rfl⟩)))
        next => cases h
    next => cases h
    next => cases h
  | wake done =>
    dsimp only [streamStep] at h
    split at h
    next tasks hphase htasks =>
        split at h
        next hdone =>
            cases h
            exact .inr (.inr (.inr (.inr ⟨done, tasks, rfl, hphase, htasks, hdone, rfl⟩)))
        next => cases h
    next => cases h

/-! ## What a step does -/

namespace StreamState

variable {limits : StreamLimits} {state : StreamState α β}

theorem canScheduleMore_iff :
    state.canScheduleMore limits = true ↔ state.exhausted = false ∧ state.pending.length < limits.maxPending ∧
      state.results.length < limits.maxBufferSize := by
  unfold canScheduleMore
  simp [and_assoc]

/-- A task is started, or nothing more is scheduled: the items or the room ran out. -/
theorem schedule_cases (limits : StreamLimits) (state : StreamState α β) :
    (∃ item items, state.itemsIter = item :: items ∧ state.canScheduleMore limits = true ∧
      state.schedule limits =
        { state with
          nextIdx := state.nextIdx + 1
          itemsIter := items
          pending := state.pending ++ [(state.nextIdx, item)] }) ∨
    (state.itemsIter = [] ∧ state.schedule limits = { state with exhausted := true, phase := .checking }) ∨
    (state.canScheduleMore limits = false ∧ state.schedule limits = { state with phase := .checking }) := by
  unfold schedule
  split
  next hmore =>
      split
      next hitems => exact .inr (.inl ⟨hitems, rfl⟩)
      next item items hitems => exact .inl ⟨item, items, hitems, hmore, rfl⟩
  next hmore => exact .inr (.inr ⟨Bool.eq_false_iff.mpr hmore, rfl⟩)

theorem check_cases (state : StreamState α β) :
    (state.pending = [] ∧ state.results = [] ∧ state.check = state.finish) ∨
      state.check = { state with phase := .yielding } := by
  unfold check
  split
  next hempty =>
      obtain ⟨hpending, hresults⟩ := Bool.and_eq_true_iff.mp hempty
      exact .inl ⟨List.isEmpty_iff.mp hpending, List.isEmpty_iff.mp hresults, rfl⟩
  next => exact .inr rfl

theorem yieldNext_cases (state : StreamState α β) :
    (∃ result, state.results.lookup state.nextIdxToYield = some result ∧
      state.yieldNext =
        { state with
          results := state.results.filter fun entry => entry.1 ≠ state.nextIdxToYield
          yielded := state.yielded ++ [result]
          nextIdxToYield := state.nextIdxToYield + 1 }) ∨
    (state.results.lookup state.nextIdxToYield = none ∧ state.pending = [] ∧ state.yieldNext = state.finish) ∨
    (state.results.lookup state.nextIdxToYield = none ∧ state.pending ≠ [] ∧
      state.yieldNext = { state with phase := .waiting }) := by
  unfold yieldNext
  split
  next result hresult => exact .inl ⟨result, hresult, rfl⟩
  next hresult =>
      split
      next hempty => exact .inr (.inl ⟨hresult, List.isEmpty_iff.mp hempty, rfl⟩)
      next hpending => exact .inr (.inr ⟨hresult, fun h => hpending (List.isEmpty_iff.mpr h), rfl⟩)

end StreamState

end AsyncUdf

end Fenic
