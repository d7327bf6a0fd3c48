import Fenic.AsyncUdf.Ordered

/-!
# `AsyncUdf.Buffer` — how full the buffer gets

New tasks are started as long as the buffer is not full and not too many tasks are pending; each bound is looked at by itself.
What is pending when the last free place of the buffer is taken is still to come, so that the buffer can hold more than
`max_buffer_size` results (`buffer_bounded_iff`). Together, the two dictionaries hold less than the sum of the two bounds
(`Inv.total_lt`).

When a task is done is not only up to the task. Each runs under a semaphore, and holds its place through all its tries. So the
stream is taken together with its tasks here: a step is one of the loop, or a task that was let in is done. With a concurrency
of one, the tasks are done in the order in which they were started.
-/

namespace Fenic

namespace AsyncUdf

variable {α β : Type}

/-- `completed` are the tasks that are done and that the loop has not seen yet. -/
structure TaskState (α β : Type) where
  stream : StreamState α β
  completed : List Nat
  deriving DecidableEq

inductive TaskAction where
  | stream (action : StreamAction)
  /-- A task returns, or raises. -/
  | complete (idx : Nat)
  deriving DecidableEq

namespace TaskState

def init (items : List α) : TaskState α β where
  stream := .init items
  completed := []

/-- The tasks that the semaphore has let in, in the order in which they came to it. -/
def running (maxConcurrency : Nat) (state : TaskState α β) : List Nat :=
  ((state.stream.pending.map Prod.fst).filter fun idx => idx ∉ state.completed).take maxConcurrency

/-- The generator is suspended, at a `yield` or at `asyncio.wait`. -/
def isSuspended (state : TaskState α β) : Prop := state.stream.phase = .yielding ∨ state.stream.phase = .waiting

instance (state : TaskState α β) : Decidable state.isSuspended := inferInstanceAs (Decidable (_ ∨ _))

/-- What a wait returns is all that it waits for and that is done. -/
def sees (limits : StreamLimits) (state : TaskState α β) (done : List Nat) : Prop :=
  ∀ idx ∈ (state.stream.tasksToWait limits).getD [], idx ∈ done ↔ idx ∈ state.completed

instance (limits : StreamLimits) (state : TaskState α β) (done : List Nat) : Decidable (state.sees limits done) :=
  inferInstanceAs (Decidable (∀ _ ∈ _, _))

end TaskState

/-- A step of the loop, or of the tasks. -/
def taskStep (call : Nat → α → β) (maxConcurrency : Nat) (state : TaskState α β) : TaskAction → Option (TaskState α β)
  | .stream .advance =>
    (streamStep call (.new maxConcurrency) state.stream .advance).map fun stream => { state with stream := stream }
  | .stream (.wake done) =>
    if state.sees (.new maxConcurrency) done then
      (streamStep call (.new maxConcurrency) state.stream (.wake done)).map fun stream =>
        { stream := stream, completed := state.completed.filter fun idx => idx ∉ done }
    else none
  | .complete idx =>
    if state.isSuspended ∧ idx ∈ state.running maxConcurrency then
      some { state with completed := state.completed ++ [idx] }
    else none

variable {call : Nat → α → β} {limits : StreamLimits} {maxConcurrency : Nat} {items : List α}

variable {action : TaskAction}

theorem taskStep_cases {state state' : TaskState α β}
    (h : taskStep call maxConcurrency state action = some state') :
    (action = .stream .advance ∧ ∃ stream, streamStep call (.new maxConcurrency) state.stream .advance = some stream ∧
      state' = { state with stream := stream }) ∨
    (∃ done stream, action = .stream (.wake done) ∧ state.sees (.new maxConcurrency) done ∧
      streamStep call (.new maxConcurrency) state.stream (.wake done) = some stream ∧
      state' = { stream := stream, completed := state.completed.filter fun idx => idx ∉ done }) ∨
    ∃ idx, action = .complete idx ∧ idx ∈ state.running maxConcurrency ∧
      state' = { state with completed := state.completed ++ [idx] } := by
  cases action with
  | stream action =>
    cases action with
    | advance =>
      obtain ⟨stream, hstream, rfl⟩ := Option.map_eq_some_iff.mp h
      exact .inl ⟨rfl, stream, hstream, rfl⟩
    | wake done =>
      dsimp only [taskStep] at h
      split at h
      next hsees =>
          obtain ⟨stream, hstream, rfl⟩ := Option.map_eq_some_iff.mp h
          exact .inr (.inl ⟨done, stream, rfl, hsees, hstream, rfl⟩)
      next => cases h
  | complete idx =>
    dsimp only [taskStep] at h
    split at h
    next hrunning =>
        cases h
        exact .inr (.inr ⟨idx, rfl, hrunning.2, rfl⟩)
    next => cases h

/-- The tasks only add to the stream when its waits return: what its steps keep, all steps keep. -/
theorem taskStep_stream {P : StreamState α β → Prop}
    (hP : ∀ stream action stream',
      P stream → streamStep call (.new maxConcurrency) stream action = some stream' → P stream')
    {state state' : TaskState α β} (h : P state.stream)
    (hstep : taskStep call maxConcurrency state action = some state') : P state'.stream := by
  rcases taskStep_cases hstep with ⟨-, stream, hstream, rfl⟩ | ⟨done, stream, -, -, hstream, rfl⟩ | ⟨idx, -, -, rfl⟩
  · exact hP _ _ _ h hstream
  · exact hP _ _ _ h hstream
  · exact h

/-! ## What the loop does to the dictionaries -/

namespace StreamState

variable {state state' : StreamState α β}

/-- The tasks that are done are not pending any more; nothing else changes but the results. -/
theorem completeAll_eq (call : Nat → α → β) (done : List Nat) (state : StreamState α β) :
    (done.foldl (StreamState.complete call) state).pending = state.pending.filter (fun entry => entry.1 ∉ done) ∧
      (done.foldl (StreamState.complete call) state).nextIdx = state.nextIdx ∧
      (done.foldl (StreamState.complete call) state).nextIdxToYield = state.nextIdxToYield := by
  induction done generalizing state with
  | nil => simp
  | cons idx done ih =>
    obtain ⟨hpending, hnext, hyield⟩ := ih (state.complete call idx)
    rw [List.foldl_cons, hpending, hnext, hyield]
    unfold StreamState.complete
    split
    next item hitem =>
        refine ⟨?_, rfl, rfl⟩
        rw [List.filter_filter]
        apply List.filter_congr
        intro entry _
        rw [← Bool.decide_and, decide_eq_decide, List.mem_cons, not_or]
        exact and_comm
    next hnone =>
        refine ⟨?_, rfl, rfl⟩
        apply List.filter_congr
        intro entry hentry
        have hne : entry.1 ≠ idx := by
          rintro rfl
          exact Rows.not_mem_of_lookup hnone (List.mem_map_of_mem hentry)
        simp [hne]

/-- The loop by itself adds no result. -/
theorem results_length_advance (h : streamStep call limits state .advance = some state') :
    state'.results.length ≤ state.results.length := by
  rcases streamStep_cases h with ⟨-, -, rfl⟩ | ⟨-, -, rfl⟩ | ⟨-, -, rfl⟩ | ⟨-, -, -, rfl⟩ | ⟨_, _, hwake, -⟩
  · rcases schedule_cases limits state with ⟨_, _, -, -, heq⟩ | ⟨-, heq⟩ | ⟨-, heq⟩
    · rw [heq]
    · rw [heq]
    · rw [heq]
  · rcases check_cases state with ⟨-, -, heq⟩ | heq
    · rw [heq]
      exact Nat.le_refl _
    · rw [heq]
  · rcases yieldNext_cases state with ⟨_, -, heq⟩ | ⟨-, -, heq⟩ | ⟨-, -, heq⟩
    · rw [heq]
      exact List.length_filter_le _ _
    · rw [heq]
      exact Nat.le_refl _
    · rw [heq]
  · exact Nat.le_refl _
  · cases hwake

/-- The two dictionaries together do not outgrow the two bounds. -/
structure Within (limits : StreamLimits) (state : StreamState α β) : Prop where
  total_le : state.results.length + state.pending.length ≤ limits.maxBufferSize + limits.maxPending - 1

theorem Within.of_le (h : Within limits state)
    (hle : state'.results.length + state'.pending.length ≤ state.results.length + state.pending.length) :
    Within limits state' := ⟨hle.trans h.total_le⟩

theorem Within.step {action : StreamAction} (hinv : Inv call limits items state) (h : Within limits state)
    (hstep : streamStep call limits state action = some state') : Within limits state' := by
  rcases streamStep_cases hstep with ⟨-, -, rfl⟩ | ⟨-, -, rfl⟩ | ⟨-, -, rfl⟩ | ⟨-, hphase, htasks, -⟩ |
    ⟨done, tasks, -, hphase, htasks, hdone, rfl⟩
  · rcases schedule_cases limits state with ⟨item, rest, -, hmore, heq⟩ | ⟨-, heq⟩ | ⟨-, heq⟩
    · -- both bounds have room for one more
      obtain ⟨-, hpending, hresults⟩ := canScheduleMore_iff.mp hmore
      rw [heq]
      constructor
      simp only [List.length_append, List.length_cons, List.length_nil]
      omega
    · rw [heq]
      exact h.of_le (Nat.le_refl _)
    · rw [heq]
      exact h.of_le (Nat.le_refl _)
  · rcases check_cases state with ⟨-, -, heq⟩ | heq
    · rw [heq]
      exact h.of_le (Nat.add_le_add_left (Nat.zero_le _) _)
    · rw [heq]
      exact h.of_le (Nat.le_refl _)
  · rcases yieldNext_cases state with ⟨result, -, heq⟩ | ⟨-, -, heq⟩ | ⟨-, -, heq⟩
    · rw [heq]
      exact h.of_le (Nat.add_le_add_right (List.length_filter_le _ _) _)
    · rw [heq]
      exact h.of_le (Nat.add_le_add_left (Nat.zero_le _) _)
    · rw [heq]
      exact h.of_le (Nat.le_refl _)
  · exact absurd htasks (hinv.not_failing hphase)
  · obtain ⟨-, -, -, hresults, hpending⟩ := hinv.wake hphase htasks hdone rfl
    apply h.of_le
    dsimp only
    omega

end StreamState

open StreamState

/-- **In every run, less is buffered and pending than the two bounds together allow.** -/
theorem buffered_and_pending_le {actions : List TaskAction} {state : TaskState α β}
    (hrun : Transition.run (taskStep call maxConcurrency) (.init items) actions = some state) :
    state.stream.results.length + state.stream.pending.length ≤
      (StreamLimits.new maxConcurrency).maxBufferSize + (StreamLimits.new maxConcurrency).maxPending - 1 := by
  have hstep : ∀ (stream : StreamState α β) action stream',
      Inv call (.new maxConcurrency) items stream ∧ Within (.new maxConcurrency) stream →
      streamStep call (.new maxConcurrency) stream action = some stream' →
      Inv call (.new maxConcurrency) items stream' ∧ Within (.new maxConcurrency) stream' :=
    fun _ _ _ h hstep => ⟨h.1.step hstep, h.2.step h.1 hstep⟩
  have hwithin := Transition.invariant_run
    (P := fun state : TaskState α β =>
      Inv call (.new maxConcurrency) items state.stream ∧ Within (.new maxConcurrency) state.stream)
    (fun _ _ _ h h' => taskStep_stream hstep h h') ⟨inv_init call _ items, ⟨Nat.zero_le _⟩⟩ hrun
  exact hwithin.2.total_le

theorem scheduled_pending_le : ∃ state, Transition.run (taskStep echo 1) (.init [10, 20]) (List.replicate 3 (.stream .advance)) = some state ∧
    state.stream.results.length + state.stream.pending.length ≤ (StreamLimits.new 1).maxBufferSize + (StreamLimits.new 1).maxPending - 1 := by
  obtain ⟨state, hrun⟩ := Option.isSome_iff_exists.mp (show (Transition.run (taskStep echo 1) (.init [10, 20])
    (List.replicate 3 (.stream .advance))).isSome by decide)
  exact ⟨state, hrun, buffered_and_pending_le hrun⟩

/-! ## A concurrency of one -/

/-- The tasks go through the dictionaries in order: first the results, then what is done, then the rest. -/
structure InOrder (state : TaskState α β) : Prop where
  pending_eq : state.stream.pending.map Prod.fst =
    List.range' (state.stream.nextIdxToYield + state.stream.results.length) state.stream.pending.length
  completed_eq : state.completed =
    List.range' (state.stream.nextIdxToYield + state.stream.results.length) state.completed.length
  completed_le : state.completed.length ≤ state.stream.pending.length

/-- What is left of a range without its beginning. -/
theorem filter_range'_not_mem (start done len : Nat) (h : done ≤ len) :
    (List.range' start len).filter (fun idx => idx ∉ List.range' start done) = List.range' (start + done) (len - done) := by
  obtain ⟨rest, rfl⟩ := Nat.exists_eq_add_of_le h
  rw [← List.range'_append_1, List.filter_append, Nat.add_sub_cancel_left]
  have hfirst : (List.range' start done).filter (fun idx => idx ∉ List.range' start done) = [] := by
    apply List.filter_eq_nil_iff.mpr
    intro idx hidx
    simp [List.mem_range'_1.mp hidx]
  have hsecond : (List.range' (start + done) rest).filter (fun idx => idx ∉ List.range' start done) =
      List.range' (start + done) rest := by
    apply List.filter_eq_self.mpr
    intro idx hidx
    have hle := (List.mem_range'_1.mp hidx).1
    simp only [decide_eq_true_eq, List.mem_range'_1, not_and, not_lt]
    intro _
    exact hle
  rw [hfirst, hsecond, List.nil_append]

/-- The tasks that are pending and not done, in order. -/
theorem InOrder.filter_completed {state : TaskState α β} (h : InOrder state) :
    (state.stream.pending.map Prod.fst).filter (fun idx => idx ∉ state.completed) =
      List.range' (state.stream.nextIdxToYield + state.stream.results.length + state.completed.length)
        (state.stream.pending.length - state.completed.length) := by
  rw [h.pending_eq]
  have hfilter := filter_range'_not_mem (state.stream.nextIdxToYield + state.stream.results.length) _ _ h.completed_le
  rw [← h.completed_eq] at hfilter
  exact hfilter

/-- The results are those that come next. -/
theorem InOrder.results_perm {state : TaskState α β} (h : InOrder state)
    (haccounted : Accounted call limits items state.stream) :
    (state.stream.results.map Prod.fst).Perm (List.range' state.stream.nextIdxToYield state.stream.results.length) := by
  have hkeys := haccounted.keys_perm
  rw [← haccounted.length_eq, Nat.add_comm, ← List.range'_append_1, h.pending_eq] at hkeys
  exact (List.perm_append_left_iff _).mp (hkeys.trans List.perm_append_comm)

/-- **Where the loop waits, the buffer is empty.** -/
theorem InOrder.results_eq_nil {state : TaskState α β} (h : InOrder state) (hinv : Inv call limits items state.stream)
    (hphase : state.stream.phase = .waiting) : state.stream.results = [] := by
  have hwaiting := hinv.atPhase
  unfold AtPhase at hwaiting
  rw [hphase] at hwaiting
  by_contra hne
  have hpos := List.length_pos_of_ne_nil hne
  apply Rows.not_mem_of_lookup hwaiting.2
  apply (h.results_perm hinv.accounted).mem_iff.mpr
  apply List.mem_range'_1.mpr
  omega

theorem InOrder.finish {state : TaskState α β} (h : InOrder state) (hpending : state.stream.pending = []) :
    InOrder { state with stream := state.stream.finish } := by
  have hcompleted : state.completed = [] := by
    have hle := h.completed_le
    rw [hpending] at hle
    exact List.length_eq_zero_iff.mp (Nat.le_zero.mp hle)
  refine ⟨rfl, ?_, ?_⟩
  · show state.completed = List.range' _ state.completed.length
    rw [hcompleted]
    rfl
  · show state.completed.length ≤ 0
    rw [hcompleted]
    exact Nat.le_refl 0

theorem InOrder.wake {state : TaskState α β} (h : InOrder state) (hinv : Inv call (.new maxConcurrency) items state.stream)
    {tasks done : List Nat} (hphase : state.stream.phase = .waiting)
    (htasks : state.stream.tasksToWait (.new maxConcurrency) = some tasks) (hdone : IsDone tasks done)
    (hsees : state.sees (.new maxConcurrency) done) :
    InOrder { stream := { done.foldl (StreamState.complete call) state.stream with phase := .scheduling },
              completed := state.completed.filter fun idx => idx ∉ done } := by
  have hwaiting := hinv.atPhase
  unfold AtPhase at hwaiting
  rw [hphase] at hwaiting
  have hresults := h.results_eq_nil hinv hphase
  -- the loop waits for all tasks, so it sees all that are done
  have hall : tasks = state.stream.pending.map Prod.fst := by
    have hroom : ¬ (StreamLimits.new maxConcurrency).maxBufferSize ≤ state.stream.results.length := by
      have hpending := lt_of_lt_of_le (List.length_pos_of_ne_nil hwaiting.1) hinv.accounted.pending_le
      rw [hresults]
      dsimp only [StreamLimits.new, hardPendingLimit, defaultPendingMultiplier, hardBufferLimit, defaultBufferMultiplier,
        List.length_nil] at hpending ⊢
      omega
    unfold StreamState.tasksToWait at htasks
    rw [if_neg hroom] at htasks
    exact (Option.some.inj htasks).symm
  have hcompleted : ∀ idx, idx ∈ done ↔ idx ∈ state.completed := by
    intro idx
    have hiff : idx ∈ tasks → (idx ∈ done ↔ idx ∈ state.completed) := by
      unfold TaskState.sees at hsees
      rw [htasks, Option.getD_some] at hsees
      exact hsees idx
    constructor
    · intro hidx
      exact (hiff (hdone.2.2 idx hidx)).mp hidx
    · intro hidx
      refine (hiff ?_).mpr hidx
      rw [hall, h.pending_eq]
      rw [h.completed_eq] at hidx
      have hrange := List.mem_range'_1.mp hidx
      have hle := h.completed_le
      apply List.mem_range'_1.mpr
      omega
  have hnodup : state.completed.Nodup := by
    rw [h.completed_eq]
    exact List.nodup_range'
  have hlength : done.length = state.completed.length :=
    ((List.perm_ext_iff_of_nodup hdone.2.1 hnodup).mpr hcompleted).length_eq
  obtain ⟨hpending, -, hyield⟩ := completeAll_eq call done state.stream
  obtain ⟨-, -, -, hresults', hpending'⟩ := hinv.wake hphase htasks hdone rfl
  have hnone : state.completed.filter (fun idx => idx ∉ done) = [] := by
    apply List.filter_eq_nil_iff.mpr
    intro idx hidx
    simp [(hcompleted idx).mpr hidx]
  have hkeys : (state.stream.pending.filter fun entry => entry.1 ∉ done).map Prod.fst =
      (state.stream.pending.map Prod.fst).filter fun idx => idx ∉ state.completed := by
    rw [List.filter_map]
    congr 1
    apply List.filter_congr
    intro entry _
    exact decide_eq_decide.mpr (not_congr (hcompleted entry.1))
  rw [hresults, List.length_nil, Nat.zero_add] at hresults'
  refine ⟨?_, ?_, ?_⟩
  · show (done.foldl (StreamState.complete call) state.stream).pending.map Prod.fst =
      List.range' ((done.foldl (StreamState.complete call) state.stream).nextIdxToYield +
        (done.foldl (StreamState.complete call) state.stream).results.length)
        (done.foldl (StreamState.complete call) state.stream).pending.length
    have hleft : (done.foldl (StreamState.complete call) state.stream).pending.length =
        state.stream.pending.length - state.completed.length := by omega
    rw [hleft, hyield, hresults', hlength, hpending, hkeys, h.filter_completed, hresults]
    rfl
  · dsimp only
    rw [hnone]
    rfl
  · dsimp only
    rw [hnone]
    exact Nat.zero_le _

theorem InOrder.step (hone : maxConcurrency ≤ 1) {state state' : TaskState α β} (h : InOrder state)
    (hinv : Inv call (.new maxConcurrency) items state.stream)
    (hstep : taskStep call maxConcurrency state action = some state') : InOrder state' := by
  rcases taskStep_cases hstep with ⟨-, stream, hstream, rfl⟩ | ⟨done, stream, -, hsees, hstream, rfl⟩ |
    ⟨idx, -, hidx, rfl⟩
  · rcases streamStep_cases hstream with ⟨-, -, rfl⟩ | ⟨-, -, rfl⟩ | ⟨-, hphase, rfl⟩ | ⟨-, hphase, htasks, -⟩ |
      ⟨_, _, hwake, -⟩
    · rcases schedule_cases (.new maxConcurrency) state.stream with ⟨item, rest, -, -, heq⟩ | ⟨-, heq⟩ | ⟨-, heq⟩
      · -- the new task comes last
        have hlast : state.stream.nextIdxToYield + state.stream.results.length + state.stream.pending.length =
            state.stream.nextIdx := by
          have hlength := hinv.accounted.length_eq
          have hle := hinv.accounted.next_le
          omega
        rw [heq]
        refine ⟨?_, h.completed_eq, ?_⟩
        · show (state.stream.pending ++ [(state.stream.nextIdx, item)]).map Prod.fst =
            List.range' (state.stream.nextIdxToYield + state.stream.results.length)
              (state.stream.pending ++ [(state.stream.nextIdx, item)]).length
          rw [List.map_append, h.pending_eq, List.length_append, List.length_singleton, List.range'_1_concat, hlast]
          rfl
        · show state.completed.length ≤ (state.stream.pending ++ [(state.stream.nextIdx, item)]).length
          rw [List.length_append]
          exact h.completed_le.trans (Nat.le_add_right _ _)
      · rw [heq]
        exact ⟨h.pending_eq, h.completed_eq, h.completed_le⟩
      · rw [heq]
        exact ⟨h.pending_eq, h.completed_eq, h.completed_le⟩
    · rcases check_cases state.stream with ⟨hpending, -, heq⟩ | heq
      · rw [heq]
        exact h.finish hpending
      · rw [heq]
        exact ⟨h.pending_eq, h.completed_eq, h.completed_le⟩
    · rcases yieldNext_cases state.stream with ⟨result, hresult, heq⟩ | ⟨-, hpending, heq⟩ | ⟨-, -, heq⟩
      · -- one result less, and the next index is one higher
        have hkey : state.stream.nextIdxToYield ∈ state.stream.results.map Prod.fst :=
          List.mem_map.mpr ⟨_, Rows.mem_of_lookup hresult, rfl⟩
        have hlength := (Rows.keys_perm (List.nodup_append.mp hinv.accounted.keys_nodup).2.1 hkey).length_eq
        rw [List.length_cons, List.length_map, List.length_map] at hlength
        have hstart : state.stream.nextIdxToYield + 1 +
            (state.stream.results.filter fun entry => entry.1 ≠ state.stream.nextIdxToYield).length =
            state.stream.nextIdxToYield + state.stream.results.length := by omega
        rw [heq]
        refine ⟨?_, ?_, h.completed_le⟩
        · show state.stream.pending.map Prod.fst = List.range' (state.stream.nextIdxToYield + 1 +
            (state.stream.results.filter fun entry => entry.1 ≠ state.stream.nextIdxToYield).length) _
          rw [hstart]
          exact h.pending_eq
        · show state.completed = List.range' (state.stream.nextIdxToYield + 1 +
            (state.stream.results.filter fun entry => entry.1 ≠ state.stream.nextIdxToYield).length) _
          rw [hstart]
          exact h.completed_eq
      · rw [heq]
        exact h.finish hpending
      · rw [heq]
        exact ⟨h.pending_eq, h.completed_eq, h.completed_le⟩
    · exact absurd htasks (hinv.not_failing hphase)
    · cases hwake
  · rcases streamStep_cases hstream with ⟨hwake, -⟩ | ⟨hwake, -⟩ | ⟨hwake, -⟩ | ⟨hwake, -⟩ |
      ⟨done, tasks, hwake, hphase, htasks, hdone, rfl⟩
    · cases hwake
    · cases hwake
    · cases hwake
    · cases hwake
    · cases hwake
      exact h.wake hinv hphase htasks hdone hsees
  · -- the only task that is let in is the first that is not done
    unfold TaskState.running at hidx
    rw [h.filter_completed] at hidx
    have hlt : state.completed.length < state.stream.pending.length := by
      by_contra hge
      rw [Nat.sub_eq_zero_of_le (Nat.le_of_not_lt hge)] at hidx
      simp at hidx
    obtain ⟨left, hleft⟩ := Nat.exists_eq_add_of_lt hlt
    have hfirst : idx = state.stream.nextIdxToYield + state.stream.results.length + state.completed.length := by
      have hcount : state.stream.pending.length - state.completed.length = left + 1 := by omega
      rw [hcount, List.range'_succ] at hidx
      have htake := (List.take_prefix_take_left hone).subset hidx
      exact List.mem_singleton.mp htake
    refine ⟨h.pending_eq, ?_, ?_⟩
    · show state.completed ++ [idx] = List.range' _ (state.completed ++ [idx]).length
      rw [List.length_append, List.length_singleton, List.range'_1_concat, ← h.completed_eq, hfirst]
    · show (state.completed ++ [idx]).length ≤ state.stream.pending.length
      rw [List.length_append]
      exact hlt

/-- With the tasks in order, no more results are buffered than tasks may be pending. -/
theorem InOrder.results_le {state state' : TaskState α β} (h : InOrder state)
    (hinv : Inv call (.new maxConcurrency) items state.stream)
    (hle : state.stream.results.length ≤ (StreamLimits.new maxConcurrency).maxPending)
    (hstep : taskStep call maxConcurrency state action = some state') :
    state'.stream.results.length ≤ (StreamLimits.new maxConcurrency).maxPending := by
  rcases taskStep_cases hstep with ⟨-, stream, hstream, rfl⟩ | ⟨done, stream, -, -, hstream, rfl⟩ | ⟨idx, -, -, rfl⟩
  · exact (results_length_advance hstream).trans hle
  · rcases streamStep_cases hstream with ⟨hwake, -⟩ | ⟨hwake, -⟩ | ⟨hwake, -⟩ | ⟨hwake, -⟩ |
      ⟨done, tasks, hwake, hphase, htasks, hdone, rfl⟩
    · cases hwake
    · cases hwake
    · cases hwake
    · cases hwake
    · obtain ⟨-, -, -, hresults, hpending⟩ := hinv.wake hphase htasks hdone rfl
      rw [h.results_eq_nil hinv hphase] at hresults
      have hbound := hinv.accounted.pending_le
      rw [hresults, List.length_nil]
      omega
  · exact hle

/-! ## A slow first task -/

/-- The loop waits, with the first task pending and the next `buffered` ones in the buffer, and could not start more tasks. -/
structure Stalled (call : Nat → α → β) (maxConcurrency : Nat) (items : List α) (buffered : Nat) (state : TaskState α β) :
    Prop where
  inv : Inv call (.new maxConcurrency) items state.stream
  phase_eq : state.stream.phase = .waiting
  first : state.stream.nextIdxToYield = 0
  results_length : state.stream.results.length = buffered
  pending_eq : state.stream.pending.map Prod.fst =
    0 :: List.range' (buffered + 1) (state.stream.nextIdx - (buffered + 1))
  completed_eq : state.completed = []
  full : state.stream.itemsIter = [] ∨ (StreamLimits.new maxConcurrency).maxPending ≤ state.stream.pending.length ∨
    (StreamLimits.new maxConcurrency).maxBufferSize ≤ state.stream.results.length

variable {stream : StreamState α β}

theorem taskStep_advance {state : TaskState α β}
    (h : streamStep call (.new maxConcurrency) state.stream .advance = some stream) :
    taskStep call maxConcurrency state (.stream .advance) = some { state with stream := stream } := by
  dsimp only [taskStep]
  rw [h]
  rfl

theorem streamStep_schedule (call : Nat → α → β) (limits : StreamLimits)
    (hphase : stream.phase = .scheduling) :
    streamStep call limits stream .advance = some (stream.schedule limits) := by
  dsimp only [streamStep]
  rw [hphase]

/-- The loop that schedules goes on until the items or the room run out. -/
theorem exists_scheduled (state : TaskState α β) (hinv : Inv call (.new maxConcurrency) items state.stream)
    (hphase : state.stream.phase = .scheduling) :
    ∃ started state', Transition.Reaches (taskStep call maxConcurrency) state state' ∧
      Inv call (.new maxConcurrency) items state'.stream ∧ state'.stream.phase = .checking ∧
      state'.stream.nextIdxToYield = state.stream.nextIdxToYield ∧ state'.stream.results = state.stream.results ∧
      state'.stream.nextIdx = state.stream.nextIdx + started ∧
      state'.stream.pending.map Prod.fst = state.stream.pending.map Prod.fst ++ List.range' state.stream.nextIdx started ∧
      state'.completed = state.completed ∧
      (state'.stream.itemsIter = [] ∨ (StreamLimits.new maxConcurrency).maxPending ≤ state'.stream.pending.length ∨
        (StreamLimits.new maxConcurrency).maxBufferSize ≤ state'.stream.results.length) := by
  -- by induction on the items that are left
  induction hleft : state.stream.itemsIter generalizing state with
  | nil =>
    have htask := taskStep_advance (streamStep_schedule call (.new maxConcurrency) hphase)
    have hnext := hinv.step (streamStep_schedule call _ hphase)
    rcases schedule_cases (.new maxConcurrency) state.stream with ⟨_, _, hitems, -⟩ | ⟨-, heq⟩ | ⟨-, heq⟩
    · rw [hleft] at hitems
      cases hitems
    · rw [heq] at htask hnext
      exact ⟨0, _, .head htask (.refl _), hnext, rfl, rfl, rfl, rfl, (List.append_nil _).symm, rfl, .inl hleft⟩
    · rw [heq] at htask hnext
      exact ⟨0, _, .head htask (.refl _), hnext, rfl, rfl, rfl, rfl, (List.append_nil _).symm, rfl, .inl hleft⟩
  | cons item rest ih =>
    have htask := taskStep_advance (streamStep_schedule call (.new maxConcurrency) hphase)
    have hnext := hinv.step (streamStep_schedule call _ hphase)
    rcases schedule_cases (.new maxConcurrency) state.stream with ⟨item', rest', hitems, -, heq⟩ | ⟨hitems, -⟩ |
      ⟨hmore, heq⟩
    · rw [heq] at htask hnext
      obtain ⟨-, hrest⟩ := List.cons.inj (hleft.symm.trans hitems)
      obtain ⟨started, state', hreaches, hinv', hphase', hfirst, hresults, hnextIdx, hpending, hcompleted, hfull⟩ :=
        ih { state with
              stream := { state.stream with
                nextIdx := state.stream.nextIdx + 1
                itemsIter := rest'
                pending := state.stream.pending ++ [(state.stream.nextIdx, item')] } } hnext hphase hrest.symm
      refine ⟨started + 1, state', .head htask hreaches, hinv', hphase', hfirst, hresults, ?_, ?_, hcompleted, hfull⟩
      · rw [hnextIdx]
        dsimp only
        omega
      · rw [hpending, List.range'_succ]
        simp
    · rw [hleft] at hitems
      cases hitems
    · -- no room: one of the bounds is reached, as items are left
      rw [heq] at htask hnext
      refine ⟨0, _, .head htask (.refl _), hnext, rfl, rfl, rfl, rfl, (List.append_nil _).symm, rfl, .inr ?_⟩
      by_contra hroom
      obtain ⟨hpending, hresults⟩ := not_or.mp hroom
      have hexhausted : state.stream.exhausted = false := by
        apply Bool.eq_false_iff.mpr
        intro htrue
        have hnil := hinv.accounted.exhausted_nil htrue
        rw [hleft] at hnil
        cases hnil
      rw [canScheduleMore_iff.mpr ⟨hexhausted, Nat.lt_of_not_le hpending, Nat.lt_of_not_le hresults⟩] at hmore
      cases hmore

/-- The first result is not there as long as the first task is pending. -/
theorem lookup_first (hinv : Inv call limits items stream)
    (hpending : 0 ∈ stream.pending.map Prod.fst) : stream.results.lookup 0 = none := by
  cases hresult : stream.results.lookup 0 with
  | none => rfl
  | some result =>
    have hmem : 0 ∈ stream.results.map Prod.fst := List.mem_map.mpr ⟨_, Rows.mem_of_lookup hresult, rfl⟩
    exact absurd rfl ((List.nodup_append.mp hinv.accounted.keys_nodup).2.2 0 hpending 0 hmem)

/-- From the condition of the main loop to the wait, as long as the first task is pending. -/
theorem exists_waiting (call : Nat → α → β) (state : TaskState α β)
    (hinv : Inv call (.new maxConcurrency) items state.stream)
    (hphase : state.stream.phase = .checking) (hfirst : state.stream.nextIdxToYield = 0)
    (hpending : 0 ∈ state.stream.pending.map Prod.fst) :
    Transition.Reaches (taskStep call maxConcurrency) state
      { state with stream := { state.stream with phase := .waiting } } := by
  have hne : state.stream.pending ≠ [] := by
    intro hnil
    rw [hnil] at hpending
    cases hpending
  have hempty : state.stream.pending.isEmpty = false := by
    rw [List.isEmpty_eq_false_iff]
    exact hne
  have hlookup : state.stream.results.lookup state.stream.nextIdxToYield = none := by
    rw [hfirst]
    exact lookup_first hinv hpending
  have hcheck : taskStep call maxConcurrency state (.stream .advance) =
      some { state with stream := { state.stream with phase := .yielding } } := by
    dsimp only [taskStep, streamStep]
    rw [hphase]
    simp [StreamState.check, hempty]
  have hyield : taskStep call maxConcurrency { state with stream := { state.stream with phase := .yielding } }
      (.stream .advance) = some { state with stream := { state.stream with phase := .waiting } } := by
    simp [taskStep, streamStep, StreamState.yieldNext, hlookup, hempty]
  exact .head hcheck (.head hyield (.refl _))

/-- One task is done, and the loop sees it. -/
theorem exists_seen (call : Nat → α → β) (state : TaskState α β) (hphase : state.stream.phase = .waiting)
    (hcompleted : state.completed = [])
    {idx : Nat} (hidx : idx ∈ state.running maxConcurrency) {tasks : List Nat}
    (htasks : state.stream.tasksToWait (.new maxConcurrency) = some tasks) (hmem : idx ∈ tasks) :
    streamStep call (.new maxConcurrency) state.stream (.wake [idx]) =
        some { state.stream.complete call idx with phase := .scheduling } ∧
      Transition.Reaches (taskStep call maxConcurrency) state
        { stream := { state.stream.complete call idx with phase := .scheduling }, completed := [] } := by
  have hdone : IsDone tasks [idx] :=
    ⟨List.cons_ne_nil _ _, List.nodup_singleton idx, fun idx' hidx' => List.mem_singleton.mp hidx' ▸ hmem⟩
  have hstream : streamStep call (.new maxConcurrency) state.stream (.wake [idx]) =
      some { state.stream.complete call idx with phase := .scheduling } := by
    dsimp only [streamStep]
    rw [hphase, htasks]
    exact if_pos hdone
  have hcomplete : taskStep call maxConcurrency state (.complete idx) = some { state with completed := [idx] } := by
    dsimp only [taskStep]
    rw [if_pos ⟨Or.inr hphase, hidx⟩, hcompleted]
    rfl
  have hsees : TaskState.sees (.new maxConcurrency) { state with completed := [idx] } [idx] := fun _ _ => Iff.rfl
  have hwake : taskStep call maxConcurrency { state with completed := [idx] } (.stream (.wake [idx])) =
      some { stream := { state.stream.complete call idx with phase := .scheduling }, completed := [] } := by
    dsimp only [taskStep]
    rw [if_pos hsees, hstream]
    simp
  exact ⟨hstream, .head hcomplete (.head hwake (.refl _))⟩

theorem Stalled.running_eq {buffered : Nat} {state : TaskState α β} (h : Stalled call maxConcurrency items buffered state) :
    state.running maxConcurrency =
      (0 :: List.range' (buffered + 1) (state.stream.nextIdx - (buffered + 1))).take maxConcurrency := by
  unfold TaskState.running
  rw [h.completed_eq, h.pending_eq, List.filter_eq_self.mpr fun idx _ => by simp]

/-- The items are more than the buffer can hold. -/
theorem exists_stalled (hmany : (StreamLimits.new maxConcurrency).maxBufferSize < items.length) (htwo : 2 ≤ maxConcurrency) :
    ∃ state : TaskState α β, Transition.Reaches (taskStep call maxConcurrency) (.init items) state ∧
      Stalled call maxConcurrency items 0 state := by
  obtain ⟨started, state, hreaches, hinv, hphase, hfirst, hresults, hnextIdx, hpending, hcompleted, hfull⟩ :=
    exists_scheduled (.init items) (inv_init call (.new maxConcurrency) items) rfl
  have hpending' : state.stream.pending.map Prod.fst = List.range' 0 started := hpending
  have hnextIdx' : state.stream.nextIdx = started := hnextIdx.trans (Nat.zero_add _)
  have hpos : 0 < started := by
    have hlength := congrArg List.length hpending'
    rw [List.length_map, List.length_range'] at hlength
    rcases hfull with hnil | hle | hle
    · have hitems := hinv.accounted.itemsIter_eq
      rw [hnil] at hitems
      have hall := List.drop_eq_nil_iff.mp hitems.symm
      omega
    · dsimp only [StreamLimits.new, hardPendingLimit, defaultPendingMultiplier] at hle
      omega
    · rw [hresults] at hle
      dsimp only [StreamLimits.new, hardBufferLimit, defaultBufferMultiplier, TaskState.init, StreamState.init,
        List.length_nil] at hle
      omega
  obtain ⟨rest, rfl⟩ := Nat.exists_eq_succ_of_ne_zero (Nat.pos_iff_ne_zero.mp hpos)
  have hwait := exists_waiting call state hinv hphase hfirst (hpending' ▸ List.mem_cons_self)
  have hempty : (state.stream.results : List (Nat × β)) = [] := hresults
  refine ⟨_, hreaches.trans hwait, ?_⟩
  refine ⟨⟨hinv.accounted.withPhase _, ?_⟩, rfl, hfirst, ?_, ?_, hcompleted, hfull⟩
  · show state.stream.pending ≠ [] ∧ state.stream.results.lookup state.stream.nextIdxToYield = none
    rw [hempty]
    refine ⟨fun hnil => ?_, rfl⟩
    rw [hnil] at hpending'
    cases hpending'
  · show state.stream.results.length = 0
    rw [hempty]
    rfl
  · show state.stream.pending.map Prod.fst = 0 :: List.range' 1 (state.stream.nextIdx - 1)
    rw [hpending', hnextIdx']
    rfl

/-- **While the first task is slow, the buffer takes one result more.** -/
theorem Stalled.succ (hmany : (StreamLimits.new maxConcurrency).maxBufferSize < items.length) (htwo : 2 ≤ maxConcurrency)
    {buffered : Nat} {state : TaskState α β} (h : Stalled call maxConcurrency items buffered state)
    (hroom : buffered < (StreamLimits.new maxConcurrency).maxBufferSize) :
    ∃ state' : TaskState α β, Transition.Reaches (taskStep call maxConcurrency) state state' ∧
      Stalled call maxConcurrency items (buffered + 1) state' := by
  have hlength := congrArg List.length h.pending_eq
  rw [List.length_map, List.length_cons, List.length_range'] at hlength
  -- a second task is pending
  obtain ⟨rest, hrest⟩ : ∃ rest, state.stream.nextIdx - (buffered + 1) = rest + 1 := by
    apply Nat.exists_eq_add_one.mpr
    rcases h.full with hnil | hle | hle
    · have hitems := h.inv.accounted.itemsIter_eq
      rw [hnil] at hitems
      have hall := List.drop_eq_nil_iff.mp hitems.symm
      omega
    · dsimp only [StreamLimits.new, hardPendingLimit, defaultPendingMultiplier] at hle
      omega
    · rw [h.results_length] at hle
      omega
  have hpending := h.pending_eq
  have hrunning := h.running_eq
  rw [hrest, List.range'_succ] at hpending hrunning
  obtain ⟨more, rfl⟩ := Nat.exists_eq_add_of_le htwo
  have hidx : buffered + 1 ∈ state.running (2 + more) := by
    rw [hrunning, Nat.add_comm 2 more]
    simp
  have htasks : state.stream.tasksToWait (.new (2 + more)) = some (state.stream.pending.map Prod.fst) := by
    unfold StreamState.tasksToWait
    rw [if_neg (h.results_length ▸ Nat.not_le.mpr hroom)]
  have hmem : buffered + 1 ∈ state.stream.pending.map Prod.fst := by
    rw [hpending]
    simp
  obtain ⟨hstream, hseen⟩ := exists_seen call state h.phase_eq h.completed_eq hidx htasks hmem
  obtain ⟨item, -, heq, -⟩ := h.inv.accounted.complete hmem
  -- what is left are the first task and those after the one that is done
  have hkeys : (state.stream.complete call (buffered + 1)).pending.map Prod.fst =
      0 :: List.range' (buffered + 2) rest := by
    rw [heq]
    show (state.stream.pending.filter fun entry => entry.1 ≠ buffered + 1).map Prod.fst = _
    have hfilter : (state.stream.pending.filter fun entry => entry.1 ≠ buffered + 1).map Prod.fst =
        (state.stream.pending.map Prod.fst).filter fun idx => idx ≠ buffered + 1 := by
      rw [List.filter_map]
      rfl
    rw [hfilter, hpending]
    have hafter : (List.range' (buffered + 2) rest).filter (fun idx => idx ≠ buffered + 1) =
        List.range' (buffered + 2) rest := by
      apply List.filter_eq_self.mpr
      intro idx hidx
      have hle := (List.mem_range'_1.mp hidx).1
      simp only [ne_eq, decide_not, Bool.not_eq_eq_eq_not, Bool.not_true, decide_eq_false_iff_not]
      omega
    rw [List.filter_cons_of_pos (by simp), List.filter_cons_of_neg (by simp), hafter]
  obtain ⟨started, state', hreaches, hinv, hphase, hfirst, hresults, hnextIdx, hpending', hcompleted, hfull⟩ :=
    exists_scheduled { stream := { state.stream.complete call (buffered + 1) with phase := .scheduling }, completed := [] }
      (h.inv.step hstream) rfl
  rw [heq] at hfirst hresults hnextIdx
  dsimp only at hfirst hresults hnextIdx
  have hall : state'.stream.pending.map Prod.fst = 0 :: List.range' (buffered + 2) (state'.stream.nextIdx - (buffered + 2)) := by
    have hstart : state.stream.nextIdx = buffered + 2 + rest := by omega
    have hcount : state'.stream.nextIdx - (buffered + 2) = rest + started := by omega
    rw [hpending', hkeys, hcount, ← List.range'_append_1, heq]
    rw [hstart]
    rfl
  have hzero : 0 ∈ state'.stream.pending.map Prod.fst := by
    rw [hall]
    exact List.mem_cons_self
  have hfirst' := hfirst.trans h.first
  have hwait := exists_waiting call state' hinv hphase hfirst' hzero
  refine ⟨_, (hseen.trans hreaches).trans hwait, ?_⟩
  refine ⟨⟨hinv.accounted.withPhase _, ?_⟩, rfl, hfirst', ?_, hall, hcompleted, hfull⟩
  · show state'.stream.pending ≠ [] ∧ state'.stream.results.lookup state'.stream.nextIdxToYield = none
    constructor
    · intro hnil
      rw [hnil] at hzero
      cases hzero
    · rw [hfirst']
      exact lookup_first hinv hzero
  · show state'.stream.results.length = buffered + 1
    rw [hresults, List.length_append, h.results_length]
    rfl

/-- The loop waits for the first task when the buffer is full, and adds it to the buffer. -/
theorem Stalled.overflows (htwo : 2 ≤ maxConcurrency) {state : TaskState α β}
    (h : Stalled call maxConcurrency items (StreamLimits.new maxConcurrency).maxBufferSize state) :
    ∃ state' : TaskState α β, Transition.Reaches (taskStep call maxConcurrency) state state' ∧
      state'.stream.results.length = (StreamLimits.new maxConcurrency).maxBufferSize + 1 := by
  obtain ⟨more, rfl⟩ := Nat.exists_eq_add_of_le htwo
  have hmem : 0 ∈ state.stream.pending.map Prod.fst := by
    rw [h.pending_eq]
    exact List.mem_cons_self
  have hidx : 0 ∈ state.running (2 + more) := by
    rw [h.running_eq, Nat.add_comm 2 more]
    simp
  obtain ⟨item, hitem⟩ := Rows.exists_lookup hmem
  have htasks : state.stream.tasksToWait (.new (2 + more)) = some [0] := by
    unfold StreamState.tasksToWait
    rw [if_pos (Nat.le_of_eq h.results_length.symm), h.first, hitem]
    rfl
  obtain ⟨-, hseen⟩ := exists_seen call state h.phase_eq h.completed_eq hidx htasks List.mem_cons_self
  obtain ⟨_, -, heq, -⟩ := h.inv.accounted.complete hmem
  refine ⟨_, hseen, ?_⟩
  rw [heq, List.length_append, h.results_length]
  rfl

theorem exists_overflow (call : Nat → α → β)
    (hmany : (StreamLimits.new maxConcurrency).maxBufferSize < items.length) (htwo : 2 ≤ maxConcurrency) :
    ∃ state : TaskState α β, Transition.Reaches (taskStep call maxConcurrency) (.init items) state ∧
      state.stream.results.length = (StreamLimits.new maxConcurrency).maxBufferSize + 1 := by
  have hfill : ∀ buffered, buffered ≤ (StreamLimits.new maxConcurrency).maxBufferSize →
      ∃ state : TaskState α β, Transition.Reaches (taskStep call maxConcurrency) (.init items) state ∧
        Stalled call maxConcurrency items buffered state := by
    intro buffered hle
    induction buffered with
    | zero => exact exists_stalled hmany htwo
    | succ buffered ih =>
      obtain ⟨state, hreaches, hstalled⟩ := ih (Nat.le_of_succ_le hle)
      obtain ⟨state', hnext, hstalled'⟩ := hstalled.succ hmany htwo hle
      exact ⟨state', hreaches.trans hnext, hstalled'⟩
  obtain ⟨state, hreaches, hstalled⟩ := hfill _ (Nat.le_refl _)
  obtain ⟨state', hnext, hresults⟩ := hstalled.overflows htwo
  exact ⟨state', hreaches.trans hnext, hresults⟩

/-- **Every run keeps the buffer within its size, if and only if there are no more items than it can hold or only one task runs
    at a time.** -/
theorem buffer_bounded_iff (call : Nat → α → β) (maxConcurrency : Nat) (items : List α) :
    (∀ (actions : List TaskAction) (state : TaskState α β),
      Transition.run (taskStep call maxConcurrency) (.init items) actions = some state →
        state.stream.results.length ≤ (StreamLimits.new maxConcurrency).maxBufferSize) ↔
      items.length ≤ (StreamLimits.new maxConcurrency).maxBufferSize ∨ maxConcurrency ≤ 1 := by
  have hinit := inv_init call (.new maxConcurrency) items
  constructor
  · intro hbounded
    by_contra hnot
    obtain ⟨hmany, htwo⟩ := not_or.mp hnot
    obtain ⟨state, ⟨actions, hrun⟩, hresults⟩ :=
      exists_overflow call (Nat.lt_of_not_le hmany) (Nat.lt_of_not_le htwo)
    have hle := hbounded actions state hrun
    omega
  · rintro (hfew | hone) actions state hrun
    · have hinv : Inv call (.new maxConcurrency) items state.stream :=
        Transition.invariant_run (P := fun state : TaskState α β => Inv call (.new maxConcurrency) items state.stream)
          (fun _ _ _ h hstep => taskStep_stream (fun _ _ _ h hstep => h.step hstep) h hstep) hinit hrun
      have hlength := hinv.accounted.length_eq
      have hle := hinv.accounted.nextIdx_le
      omega
    · have hkeeps : ∀ (state : TaskState α β) action state',
          Inv call (.new maxConcurrency) items state.stream ∧ InOrder state ∧
            state.stream.results.length ≤ (StreamLimits.new maxConcurrency).maxPending →
          taskStep call maxConcurrency state action = some state' →
          Inv call (.new maxConcurrency) items state'.stream ∧ InOrder state' ∧
            state'.stream.results.length ≤ (StreamLimits.new maxConcurrency).maxPending :=
        fun _ _ _ h hstep => ⟨taskStep_stream (fun _ _ _ h hstep => h.step hstep) h.1 hstep, h.2.1.step hone h.1 hstep,
          h.2.1.results_le h.1 h.2.2 hstep⟩
      have hinit' : Inv call (.new maxConcurrency) items (TaskState.init items : TaskState α β).stream ∧
          InOrder (TaskState.init items : TaskState α β) ∧
          (TaskState.init items : TaskState α β).stream.results.length ≤ (StreamLimits.new maxConcurrency).maxPending :=
        ⟨hinit, ⟨rfl, rfl, Nat.le_refl _⟩, Nat.zero_le _⟩
      have hle := (Transition.invariant_run hkeeps hinit' hrun).2.2
      dsimp only [StreamLimits.new, hardPendingLimit, defaultPendingMultiplier, hardBufferLimit,
        defaultBufferMultiplier] at hle ⊢
      omega

/-- 21 items and a concurrency of two: the first task completes when 20 results are in the buffer. -/
def slowFirstTasks : List TaskAction :=
  let advance (count : Nat) : List TaskAction := List.replicate count (.stream .advance)
  let batch (indices : List Nat) : List TaskAction := indices.map .complete ++ [.stream (.wake indices)]
  advance 9 ++ batch [1, 2, 3, 4, 5] ++ advance 8 ++ batch [6, 7, 8, 9, 10] ++ advance 8 ++ batch [11, 12, 13, 14, 15] ++
    advance 8 ++ batch [16, 17, 18, 19, 20] ++ advance 3 ++ batch [0]

theorem slowFirstTasks_overflow :
    ¬ ∀ (actions : List TaskAction) (state : TaskState Nat Nat),
      Transition.run (taskStep echo 2) (.init (List.range 21)) actions = some state →
        state.stream.results.length ≤ (StreamLimits.new 2).maxBufferSize := by
  have hruns : (Transition.run (taskStep echo 2) (.init (List.range 21)) slowFirstTasks).map
      (fun state => state.stream.results.length) = some 21 := by decide +kernel
  intro hbounded
  obtain ⟨state, hrun, hresults⟩ := Option.map_eq_some_iff.mp hruns
  have hle := hbounded slowFirstTasks state hrun
  rw [hresults] at hle
  exact absurd hle (by decide)

end AsyncUdf

end Fenic
