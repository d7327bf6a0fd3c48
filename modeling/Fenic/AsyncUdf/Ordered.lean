import Fenic.AsyncUdf.Stream
import Fenic.Lib.Rows
import Mathlib.Data.List.Range
import Mathlib.Data.List.TakeDrop

/-!
# `AsyncUdf.Ordered` — what the stream yields

Every task that was started is yielded, in the buffer or pending (`Accounted.keys_perm`). So the task that a full buffer waits
for is there, and what is yielded is a prefix of the outcomes in the order of the items.

The main loop ends when no task is pending after it has yielded what it can. It does so too when the last pending tasks fill
the buffer: nothing more is scheduled then, and the items that are left are lost (`yielded_all_iff`).
-/

namespace Fenic

namespace AsyncUdf

variable {α β : Type} {call : Nat → α → β} {limits : StreamLimits} {items : List α} {state state' : StreamState α β}

namespace StreamState

/-- The outcomes in the order of the items. -/
def outcomes (call : Nat → α → β) (items : List α) : List β := items.mapIdx call

/-- Started tasks are yielded, buffered or pending; what is yielded is in order. -/
structure Accounted (call : Nat → α → β) (limits : StreamLimits) (items : List α) (state : StreamState α β) : Prop where
  itemsIter_eq : state.itemsIter = items.drop state.nextIdx
  nextIdx_le : state.nextIdx ≤ items.length
  next_le : state.nextIdxToYield ≤ state.nextIdx
  exhausted_nil : state.exhausted = true → state.itemsIter = []
  pending_item : ∀ idx item, (idx, item) ∈ state.pending → items[idx]? = some item
  results_outcome : ∀ idx result, (idx, result) ∈ state.results → (outcomes call items)[idx]? = some result
  keys_perm : (state.pending.map Prod.fst ++ state.results.map Prod.fst).Perm
    (List.range' state.nextIdxToYield (state.nextIdx - state.nextIdxToYield))
  pending_le : state.pending.length ≤ limits.maxPending
  yielded_eq : state.yielded = (outcomes call items).take state.nextIdxToYield
  cancelled_nil : state.cancelled = []

theorem accounted_init (call : Nat → α → β) (limits : StreamLimits) (items : List α) :
    Accounted call limits items (init items) where
  itemsIter_eq := rfl
  nextIdx_le := Nat.zero_le _
  next_le := Nat.le_refl 0
  exhausted_nil := fun h => nomatch h
  pending_item := fun _ _ h => nomatch h
  results_outcome := fun _ _ h => nomatch h
  keys_perm := .refl []
  pending_le := Nat.zero_le _
  yielded_eq := rfl
  cancelled_nil := rfl

/-- Where the loop waits a task is pending and the next result is not there; it ends when all is yielded. -/
def AtPhase (state : StreamState α β) : Prop :=
  match state.phase with
  | .scheduling => True
  | .checking => True
  | .yielding => True
  | .waiting => state.pending ≠ [] ∧ state.results.lookup state.nextIdxToYield = none
  | .finished => state.pending = [] ∧ state.nextIdxToYield = state.nextIdx
  | .failed => False

/-! ## The steps -/

/-- The index that is to be yielded next is in one of the dictionaries, if its task was started. -/
theorem Accounted.next_mem (h : Accounted call limits items state) (hlt : state.nextIdxToYield < state.nextIdx) :
    state.nextIdxToYield ∈ state.pending.map Prod.fst ∨ state.nextIdxToYield ∈ state.results.map Prod.fst := by
  apply List.mem_append.mp
  apply h.keys_perm.mem_iff.mpr
  apply List.mem_range'_1.mpr
  omega

/-- The dictionaries together hold what was started and not yielded. -/
theorem Accounted.length_eq (h : Accounted call limits items state) :
    state.pending.length + state.results.length = state.nextIdx - state.nextIdxToYield := by
  have hlength := h.keys_perm.length_eq
  simpa using hlength

theorem Accounted.keys_nodup (h : Accounted call limits items state) :
    (state.pending.map Prod.fst ++ state.results.map Prod.fst).Nodup :=
  h.keys_perm.nodup_iff.mpr List.nodup_range'

/-- Only the phase changes. -/
theorem Accounted.withPhase (h : Accounted call limits items state) (phase : StreamPhase) :
    Accounted call limits items { state with phase := phase } := { h with }

theorem Accounted.schedule (h : Accounted call limits items state) : Accounted call limits items (state.schedule limits) := by
  rcases schedule_cases limits state with ⟨item, rest, hitems, hmore, heq⟩ | ⟨hitems, heq⟩ | ⟨-, heq⟩
  · rw [heq]
    obtain ⟨hexhausted, hpending, -⟩ := canScheduleMore_iff.mp hmore
    have hdrop : items.drop state.nextIdx = item :: rest := h.itemsIter_eq ▸ hitems
    have hitem : items[state.nextIdx]? = some item := by
      rw [← List.head?_drop, hdrop, List.head?_cons]
    have hlt : state.nextIdx < items.length := (List.getElem?_eq_some_iff.mp hitem).1
    have hnext := h.next_le
    refine { h with itemsIter_eq := ?_, nextIdx_le := hlt, next_le := ?_, exhausted_nil := ?_, pending_item := ?_,
                    keys_perm := ?_, pending_le := ?_ }
    · show rest = items.drop (state.nextIdx + 1)
      rw [← List.tail_drop, hdrop, List.tail_cons]
    · show state.nextIdxToYield ≤ state.nextIdx + 1
      omega
    · intro htrue
      rw [hexhausted] at htrue
      cases htrue
    · intro idx item' hmem
      rcases List.mem_append.mp hmem with hmem | hmem
      · exact h.pending_item idx item' hmem
      · cases List.mem_singleton.mp hmem
        exact hitem
    · -- the new index comes last in the range, and first among those of the results
      have hrange : state.nextIdx + 1 - state.nextIdxToYield = state.nextIdx - state.nextIdxToYield + 1 := by omega
      have hlast : state.nextIdxToYield + (state.nextIdx - state.nextIdxToYield) = state.nextIdx := by omega
      show ((state.pending ++ [(state.nextIdx, item)]).map Prod.fst ++ state.results.map Prod.fst).Perm
        (List.range' state.nextIdxToYield (state.nextIdx + 1 - state.nextIdxToYield))
      rw [hrange, List.range'_1_concat, hlast, List.map_append, List.append_assoc]
      exact (List.perm_middle.trans (h.keys_perm.cons state.nextIdx)).trans (List.perm_append_singleton _ _).symm
    · show (state.pending ++ [(state.nextIdx, item)]).length ≤ limits.maxPending
      rw [List.length_append]
      exact hpending
  · rw [heq]
    exact { h with exhausted_nil := fun _ => hitems }
  · rw [heq]
    exact h.withPhase _

/-- Nothing is pending when the loop ends. -/
theorem Accounted.finish (h : Accounted call limits items state) (hpending : state.pending = []) :
    Accounted call limits items state.finish where
  itemsIter_eq := h.itemsIter_eq
  nextIdx_le := h.nextIdx_le
  next_le := h.next_le
  exhausted_nil := h.exhausted_nil
  pending_item := fun _ _ hmem => nomatch hmem
  results_outcome := h.results_outcome
  keys_perm := by
    have hkeys := h.keys_perm
    rw [hpending] at hkeys
    exact hkeys
  pending_le := Nat.zero_le _
  yielded_eq := h.yielded_eq
  cancelled_nil := by
    show state.cancelled ++ state.pending = []
    rw [h.cancelled_nil, hpending, List.append_nil]

theorem Accounted.check (h : Accounted call limits items state) :
    Accounted call limits items state.check ∧ state.check.AtPhase := by
  rcases check_cases state with ⟨hpending, hresults, heq⟩ | heq
  · rw [heq]
    refine ⟨h.finish hpending, rfl, ?_⟩
    have hlength := h.length_eq
    have hnext := h.next_le
    rw [hpending, hresults] at hlength
    show state.nextIdxToYield = state.nextIdx
    simp at hlength
    omega
  · rw [heq]
    exact ⟨h.withPhase _, trivial⟩

theorem Accounted.yieldNext (h : Accounted call limits items state) (hphase : state.phase = .yielding) :
    Accounted call limits items state.yieldNext ∧ state.yieldNext.AtPhase := by
  rcases yieldNext_cases state with ⟨result, hresult, heq⟩ | ⟨hresult, hpending, heq⟩ | ⟨hresult, hpending, heq⟩
  · rw [heq]
    have hmem := Rows.mem_of_lookup hresult
    have hkey : state.nextIdxToYield ∈ state.results.map Prod.fst := List.mem_map.mpr ⟨_, hmem, rfl⟩
    have hlt : state.nextIdxToYield < state.nextIdx := by
      have hrange := List.mem_range'_1.mp (h.keys_perm.mem_iff.mp (List.mem_append_right _ hkey))
      omega
    refine ⟨{ h with next_le := hlt, results_outcome := ?_, keys_perm := ?_, yielded_eq := ?_ }, ?_⟩
    · intro idx result' hmem'
      exact h.results_outcome idx result' (List.mem_filter.mp hmem').1
    · -- the index that is yielded is the first of the range
      have hrange : state.nextIdx - state.nextIdxToYield = state.nextIdx - (state.nextIdxToYield + 1) + 1 := by omega
      have hkeys := Rows.keys_perm (List.nodup_append.mp h.keys_nodup).2.1 hkey
      have hperm := (h.keys_perm.symm.trans (hkeys.append_left (state.pending.map Prod.fst))).trans List.perm_middle
      rw [hrange, List.range'_succ] at hperm
      exact ((List.perm_cons _).mp hperm).symm
    · show state.yielded ++ [result] = (outcomes call items).take (state.nextIdxToYield + 1)
      rw [List.take_add_one, h.results_outcome _ _ hmem, h.yielded_eq, Option.toList_some]
    · unfold AtPhase
      rw [hphase]
      trivial
  · rw [heq]
    refine ⟨h.finish hpending, rfl, ?_⟩
    show state.nextIdxToYield = state.nextIdx
    by_contra hne
    -- the task was started, but it is in neither dictionary
    rcases h.next_mem (lt_of_le_of_ne h.next_le hne) with hmem | hmem
    · rw [hpending] at hmem
      cases hmem
    · exact Rows.not_mem_of_lookup hresult hmem
  · rw [heq]
    exact ⟨h.withPhase _, hpending, hresult⟩

/-- **A full buffer finds the task that it waits for.** -/
theorem Accounted.tasksToWait_isSome (h : Accounted call limits items state) (hpending : state.pending ≠ [])
    (hresult : state.results.lookup state.nextIdxToYield = none) :
    ∃ tasks, state.tasksToWait limits = some tasks ∧ tasks ≠ [] ∧ ∀ idx ∈ tasks, idx ∈ state.pending.map Prod.fst := by
  unfold tasksToWait
  split
  next =>
      have hlength := h.length_eq
      have hpos := List.length_pos_of_ne_nil hpending
      have hmem : state.nextIdxToYield ∈ state.pending.map Prod.fst :=
        (h.next_mem (by omega)).resolve_right (Rows.not_mem_of_lookup hresult)
      obtain ⟨item, hitem⟩ := Rows.exists_lookup hmem
      rw [hitem]
      refine ⟨_, rfl, List.cons_ne_nil _ _, ?_⟩
      intro idx hidx
      cases List.mem_singleton.mp hidx
      exact hmem
  next => exact ⟨_, rfl, fun hnil => hpending (List.map_eq_nil_iff.mp hnil), fun _ hidx => hidx⟩

theorem Accounted.complete (h : Accounted call limits items state) {idx : Nat} (hidx : idx ∈ state.pending.map Prod.fst) :
    ∃ item, (idx, item) ∈ state.pending ∧
      state.complete call idx =
        { state with
          results := state.results ++ [(idx, call idx item)]
          pending := state.pending.filter fun entry => entry.1 ≠ idx } ∧
      Accounted call limits items (state.complete call idx) := by
  obtain ⟨item, hlookup⟩ := Rows.exists_lookup hidx
  have hmem := Rows.mem_of_lookup hlookup
  have heq : state.complete call idx =
      { state with
        results := state.results ++ [(idx, call idx item)]
        pending := state.pending.filter fun entry => entry.1 ≠ idx } := by
    unfold StreamState.complete
    rw [hlookup]
  refine ⟨item, hmem, heq, ?_⟩
  rw [heq]
  refine { h with pending_item := ?_, results_outcome := ?_, keys_perm := ?_, pending_le := ?_ }
  · intro idx' item' hmem'
    exact h.pending_item idx' item' (List.mem_filter.mp hmem').1
  · intro idx' result hmem'
    rcases List.mem_append.mp hmem' with hmem' | hmem'
    · exact h.results_outcome idx' result hmem'
    · cases List.mem_singleton.mp hmem'
      show (items.mapIdx call)[idx]? = some (call idx item)
      rw [List.getElem?_mapIdx, h.pending_item idx item hmem]
      rfl
  · have hkeys := Rows.keys_perm (List.nodup_append.mp h.keys_nodup).1 hidx
    refine List.Perm.trans ?_ h.keys_perm
    show ((state.pending.filter fun entry => entry.1 ≠ idx).map Prod.fst ++
      (state.results ++ [(idx, call idx item)]).map Prod.fst).Perm _
    rw [List.map_append, ← List.append_assoc]
    exact (List.perm_append_singleton _ _).trans (hkeys.symm.append_right (state.results.map Prod.fst))
  · exact (List.length_filter_le _ _).trans h.pending_le

/-- The tasks that are done, one after the other. -/
theorem Accounted.completeAll (h : Accounted call limits items state) {done : List Nat} (hnodup : done.Nodup)
    (hdone : ∀ idx ∈ done, idx ∈ state.pending.map Prod.fst) {final : StreamState α β}
    (hfinal : final = done.foldl (StreamState.complete call) state) :
    Accounted call limits items final ∧ final.itemsIter = state.itemsIter ∧ final.exhausted = state.exhausted ∧
      final.results.length = state.results.length + done.length ∧
      final.pending.length + done.length = state.pending.length := by
  induction done generalizing state with
  | nil =>
    subst hfinal
    exact ⟨h, rfl, rfl, rfl, rfl⟩
  | cons idx done ih =>
    obtain ⟨hnotMem, hnodup⟩ := List.nodup_cons.mp hnodup
    have hidx := hdone idx List.mem_cons_self
    obtain ⟨item, hitem, heq, hnext⟩ := h.complete hidx
    have hkeys := Rows.keys_perm (List.nodup_append.mp h.keys_nodup).1 hidx
    -- the other tasks are still pending
    have hrest : ∀ idx' ∈ done, idx' ∈ (state.complete call idx).pending.map Prod.fst := by
      intro idx' hidx'
      rw [heq]
      have hne : idx' ≠ idx := fun h => hnotMem (h ▸ hidx')
      exact (List.mem_cons.mp (hkeys.mem_iff.mp (hdone idx' (List.mem_cons_of_mem _ hidx')))).resolve_left hne
    obtain ⟨hfinal', hitems, hexhausted, hresults, hpending⟩ := ih hnext hnodup hrest hfinal
    have hlength := hkeys.length_eq
    rw [heq] at hitems hexhausted hresults hpending
    rw [List.length_cons, List.length_map, List.length_map] at hlength
    rw [List.length_append, List.length_singleton] at hresults
    refine ⟨hfinal', hitems, hexhausted, ?_, ?_⟩
    · rw [hresults, List.length_cons]
      omega
    · rw [List.length_cons]
      dsimp only at hpending
      omega

/-- The invariant of the stream. -/
structure Inv (call : Nat → α → β) (limits : StreamLimits) (items : List α) (state : StreamState α β) : Prop where
  accounted : Accounted call limits items state
  atPhase : state.AtPhase

/-- What the loop does with the tasks that are done. -/
theorem Inv.wake (h : Inv call limits items state) {tasks done : List Nat} (hphase : state.phase = .waiting)
    (htasks : state.tasksToWait limits = some tasks) (hdone : IsDone tasks done) {final : StreamState α β}
    (hfinal : final = done.foldl (StreamState.complete call) state) :
    Accounted call limits items final ∧ final.itemsIter = state.itemsIter ∧ final.exhausted = state.exhausted ∧
      final.results.length = state.results.length + done.length ∧
      final.pending.length + done.length = state.pending.length := by
  have hwaiting := h.atPhase
  unfold AtPhase at hwaiting
  rw [hphase] at hwaiting
  obtain ⟨tasks', htasks', -, hmem⟩ := h.accounted.tasksToWait_isSome hwaiting.1 hwaiting.2
  rw [htasks] at htasks'
  cases htasks'
  exact h.accounted.completeAll hdone.2.1 (fun idx hidx => hmem idx (hdone.2.2 idx hidx)) hfinal

theorem Inv.not_failing (h : Inv call limits items state) (hphase : state.phase = .waiting) :
    state.tasksToWait limits ≠ none := by
  have hwaiting := h.atPhase
  unfold AtPhase at hwaiting
  rw [hphase] at hwaiting
  obtain ⟨tasks, htasks, -⟩ := h.accounted.tasksToWait_isSome hwaiting.1 hwaiting.2
  rw [htasks]
  exact Option.some_ne_none tasks

/-- A step keeps the invariant. -/
theorem Inv.step {action : StreamAction} (h : Inv call limits items state)
    (hstep : streamStep call limits state action = some state') : Inv call limits items state' := by
  rcases streamStep_cases hstep with ⟨-, hphase, rfl⟩ | ⟨-, hphase, rfl⟩ | ⟨-, hphase, rfl⟩ | ⟨-, hphase, htasks, -⟩ |
    ⟨done, tasks, -, hphase, htasks, hdone, rfl⟩
  · refine ⟨h.accounted.schedule, ?_⟩
    rcases schedule_cases limits state with ⟨_, _, -, -, heq⟩ | ⟨-, heq⟩ | ⟨-, heq⟩
    · rw [heq]
      rw [hphase]
      trivial
    · rw [heq]
      trivial
    · rw [heq]
      trivial
  · exact ⟨h.accounted.check.1, h.accounted.check.2⟩
  · exact ⟨(h.accounted.yieldNext hphase).1, (h.accounted.yieldNext hphase).2⟩
  · exact absurd htasks (h.not_failing hphase)
  · exact ⟨(h.wake hphase htasks hdone rfl).1.withPhase _, trivial⟩

/-! ## The loop ends -/

/-- What is left to do: an item is scheduled, completed and yielded, and the loop goes through its phases. -/
def remaining (state : StreamState α β) : Nat :=
  6 * state.itemsIter.length + 5 * state.pending.length + state.results.length +
    match state.phase with
    | .scheduling => 4
    | .checking => 3
    | .yielding => 2
    | .waiting => 1
    | .finished => 0
    | .failed => 0

theorem Inv.remaining_lt {action : StreamAction} (h : Inv call limits items state)
    (hstep : streamStep call limits state action = some state') : state'.remaining < state.remaining := by
  rcases streamStep_cases hstep with ⟨-, hphase, rfl⟩ | ⟨-, hphase, rfl⟩ | ⟨-, hphase, rfl⟩ | ⟨-, hphase, htasks, -⟩ |
    ⟨done, tasks, -, hphase, htasks, hdone, rfl⟩
  · rcases schedule_cases limits state with ⟨item, rest, hitems, -, heq⟩ | ⟨-, heq⟩ | ⟨-, heq⟩
    · rw [heq]
      unfold remaining
      simp only [hphase, hitems, List.length_append, List.length_cons, List.length_nil]
      omega
    all_goals
      rw [heq]
      unfold remaining
      simp only [hphase]
      omega
  · rcases check_cases state with ⟨hpending, hresults, heq⟩ | heq
    · rw [heq]
      unfold remaining finish
      simp only [hphase, hpending, hresults, List.length_nil]
      omega
    · rw [heq]
      unfold remaining
      simp only [hphase]
      omega
  · rcases yieldNext_cases state with ⟨result, hresult, heq⟩ | ⟨-, hpending, heq⟩ | ⟨-, -, heq⟩
    · rw [heq]
      have hkey : state.nextIdxToYield ∈ state.results.map Prod.fst :=
        List.mem_map.mpr ⟨_, Rows.mem_of_lookup hresult, rfl⟩
      have hlength := (Rows.keys_perm (List.nodup_append.mp h.accounted.keys_nodup).2.1 hkey).length_eq
      rw [List.length_cons, List.length_map, List.length_map] at hlength
      unfold remaining
      dsimp only
      omega
    · rw [heq]
      unfold remaining finish
      simp only [hphase, hpending, List.length_nil]
      omega
    · rw [heq]
      unfold remaining
      simp only [hphase]
      omega
  · exact absurd htasks (h.not_failing hphase)
  · obtain ⟨-, hitems, -, hresults, hpending⟩ := h.wake hphase htasks hdone rfl
    have hpos := List.length_pos_of_ne_nil hdone.1
    unfold remaining
    simp only [hphase, hitems, hresults]
    omega

/-- The loop does not get stuck. -/
theorem Inv.exists_step (h : Inv call limits items state) (hphase : state.phase ≠ .finished) :
    ∃ action state', streamStep call limits state action = some state' := by
  cases heq : state.phase with
  | scheduling =>
    refine ⟨.advance, state.schedule limits, ?_⟩
    dsimp only [streamStep]
    rw [heq]
  | checking =>
    refine ⟨.advance, state.check, ?_⟩
    dsimp only [streamStep]
    rw [heq]
  | yielding =>
    refine ⟨.advance, state.yieldNext, ?_⟩
    dsimp only [streamStep]
    rw [heq]
  | waiting =>
    have hwaiting := h.atPhase
    unfold AtPhase at hwaiting
    rw [heq] at hwaiting
    obtain ⟨tasks, htasks, hne, -⟩ := h.accounted.tasksToWait_isSome hwaiting.1 hwaiting.2
    obtain ⟨idx, hidx⟩ := List.exists_mem_of_ne_nil tasks hne
    have hdone : IsDone tasks [idx] :=
      ⟨List.cons_ne_nil _ _, List.nodup_singleton idx, fun idx' hidx' => List.mem_singleton.mp hidx' ▸ hidx⟩
    refine ⟨.wake [idx], { [idx].foldl (StreamState.complete call) state with phase := .scheduling }, ?_⟩
    dsimp only [streamStep]
    rw [heq, htasks]
    exact if_pos hdone
  | finished => exact absurd heq hphase
  | failed =>
    have hfailed := h.atPhase
    unfold AtPhase at hfailed
    rw [heq] at hfailed
    exact hfailed.elim

/-! ## What is lost -/

/-- Items are left, no task is pending, and nothing more is scheduled. -/
def Stranded (limits : StreamLimits) (state : StreamState α β) : Prop :=
  state.itemsIter ≠ [] ∧ state.pending = [] ∧ (state.phase = .scheduling → state.canScheduleMore limits = false)

end StreamState

open StreamState

/-- No item is left, some pending task is not done, or the buffer does not fill up. -/
def LeavesRoom (limits : StreamLimits) (state : StreamState α β) : StreamAction → Prop
  | .advance => True
  | .wake done =>
    state.itemsIter = [] ∨ done.length < state.pending.length ∨
      state.results.length + done.length < limits.maxBufferSize

namespace StreamState

theorem stranded_iff_of_phase (limits : StreamLimits) (phase : StreamPhase) (hphase : state.phase = phase) (hne : phase ≠ .scheduling) :
    Stranded limits state ↔ state.itemsIter ≠ [] ∧ state.pending = [] := by
  constructor
  · intro h
    exact ⟨h.1, h.2.1⟩
  · intro h
    exact ⟨h.1, h.2, fun heq => absurd (hphase.symm.trans heq) hne⟩

theorem not_stranded_of_pending (hpending : state.pending ≠ []) : ¬ Stranded limits state :=
  fun h => hpending h.2.1

theorem not_stranded_of_items (hitems : state.itemsIter = []) : ¬ Stranded limits state :=
  fun h => h.1 hitems

/-- Items get lost at a step that leaves no room, and are not found again. -/
theorem Inv.stranded_iff {action : StreamAction} (h : Inv call limits items state)
    (hstep : streamStep call limits state action = some state') :
    ¬ Stranded limits state' ↔ ¬ Stranded limits state ∧ LeavesRoom limits state action := by
  rcases streamStep_cases hstep with ⟨rfl, hphase, rfl⟩ | ⟨rfl, hphase, rfl⟩ | ⟨rfl, hphase, rfl⟩ | ⟨-, hphase, htasks, -⟩ |
    ⟨done, tasks, rfl, hphase, htasks, hdone, rfl⟩
  · have hroom : LeavesRoom limits state .advance := trivial
    rcases schedule_cases limits state with ⟨item, rest, hitems, hmore, heq⟩ | ⟨hitems, heq⟩ | ⟨hmore, heq⟩
    · have hbefore : ¬ Stranded limits state := by
        intro hstranded
        rw [hstranded.2.2 hphase] at hmore
        cases hmore
      have hafter : ¬ Stranded limits (state.schedule limits) := by
        apply not_stranded_of_pending
        rw [heq]
        simp
      exact iff_of_true hafter ⟨hbefore, hroom⟩
    · have hafter : ¬ Stranded limits (state.schedule limits) := by
        apply not_stranded_of_items
        rw [heq]
        exact hitems
      exact iff_of_true hafter ⟨not_stranded_of_items hitems, hroom⟩
    · rw [and_iff_left hroom, not_iff_not, heq, stranded_iff_of_phase limits .checking rfl (by decide)]
      constructor
      · intro hempty
        exact ⟨hempty.1, hempty.2, fun _ => hmore⟩
      · intro hstranded
        exact ⟨hstranded.1, hstranded.2.1⟩
  · have hroom : LeavesRoom limits state .advance := trivial
    have hstate := stranded_iff_of_phase limits .checking hphase (by decide)
    rw [and_iff_left hroom, not_iff_not, hstate]
    rcases check_cases state with ⟨hpending, -, heq⟩ | heq
    · rw [heq, hpending]
      exact stranded_iff_of_phase limits .finished rfl (by decide)
    · rw [heq]
      exact stranded_iff_of_phase limits .yielding rfl (by decide)
  · have hroom : LeavesRoom limits state .advance := trivial
    have hstate := stranded_iff_of_phase limits .yielding hphase (by decide)
    rw [and_iff_left hroom, not_iff_not, hstate]
    rcases yieldNext_cases state with ⟨result, -, heq⟩ | ⟨-, hpending, heq⟩ | ⟨-, -, heq⟩
    · rw [heq]
      exact stranded_iff_of_phase limits .yielding hphase (by decide)
    · rw [heq, hpending]
      exact stranded_iff_of_phase limits .finished rfl (by decide)
    · rw [heq]
      exact stranded_iff_of_phase limits .waiting rfl (by decide)
  · exact absurd htasks (h.not_failing hphase)
  · have hwaiting := h.atPhase
    unfold AtPhase at hwaiting
    rw [hphase] at hwaiting
    obtain ⟨haccounted, hitems, hexhausted, hresults, hpending⟩ := h.wake hphase htasks hdone rfl
    rw [and_iff_right (not_stranded_of_pending hwaiting.1)]
    have hmaxPending : 0 < limits.maxPending :=
      lt_of_lt_of_le (List.length_pos_of_ne_nil hwaiting.1) h.accounted.pending_le
    constructor
    · intro hnot
      by_contra hlost
      obtain ⟨hleft, hlost⟩ := not_or.mp hlost
      have hnone : (done.foldl (StreamState.complete call) state).pending = [] := List.length_eq_zero_iff.mp (by omega)
      apply hnot
      refine ⟨fun hnil => hleft (hitems ▸ hnil), hnone, fun _ => ?_⟩
      apply Bool.eq_false_iff.mpr
      intro hmore
      have hlt := (canScheduleMore_iff.mp hmore).2.2
      dsimp only at hlt
      omega
    · rintro hroom ⟨hleft, hnone, hnoMore⟩
      rw [hnone, List.length_nil] at hpending
      rcases hroom with hnil | hlt | hlt
      · exact hleft (hitems.trans hnil)
      · omega
      · have hexhausted' : state.exhausted = false := by
          apply Bool.eq_false_iff.mpr
          intro htrue
          exact hleft (hitems.trans (h.accounted.exhausted_nil htrue))
        have hpos : (done.foldl (StreamState.complete call) state).pending.length < limits.maxPending := by
          rw [hnone]
          exact hmaxPending
        have hmore := canScheduleMore_iff.mpr ⟨hexhausted.trans hexhausted', hpos, lt_of_eq_of_lt hresults hlt⟩
        have hnoMore' : (done.foldl (StreamState.complete call) state).canScheduleMore limits = false := hnoMore rfl
        rw [hnoMore'] at hmore
        cases hmore

end StreamState

theorem StreamState.inv_init (call : Nat → α → β) (limits : StreamLimits) (items : List α) : Inv call limits items (init items) :=
  ⟨accounted_init call limits items, trivial⟩

/-- Nothing is lost from the start, unless there is no concurrency. -/
theorem StreamState.not_stranded_init (maxConcurrency : Nat) (items : List α) :
    ¬ Stranded (.new maxConcurrency) (init items : StreamState α β) ↔ items = [] ∨ 0 < maxConcurrency := by
  constructor
  · intro hnot
    by_contra hnone
    obtain ⟨hitems, hconcurrency⟩ := not_or.mp hnone
    have hzero : maxConcurrency = 0 := by omega
    subst hzero
    exact hnot ⟨hitems, rfl, fun _ => rfl⟩
  · rintro hstart ⟨hitems, -, hnoMore⟩
    have hpos : 0 < maxConcurrency := hstart.resolve_left hitems
    have hmore : (init items : StreamState α β).canScheduleMore (.new maxConcurrency) = true :=
      canScheduleMore_iff.mpr
        ⟨rfl, lt_min (Nat.succ_pos _) (Nat.mul_pos (Nat.succ_pos _) hpos),
          lt_min (Nat.succ_pos _) (Nat.mul_pos (Nat.succ_pos _) hpos)⟩
    rw [hnoMore rfl] at hmore
    cases hmore

/-- At the end, all is yielded if nothing was lost. -/
theorem StreamState.Inv.yielded_eq_iff (h : Inv call limits items state) (hphase : state.phase = .finished) :
    state.yielded = outcomes call items ↔ ¬ Stranded limits state := by
  have hfinished := h.atPhase
  unfold AtPhase at hfinished
  rw [hphase] at hfinished
  have hlength : (outcomes call items).length = items.length := List.length_mapIdx
  rw [h.accounted.yielded_eq, hfinished.2, List.take_eq_self_iff, hlength,
    stranded_iff_of_phase limits .finished hphase (by decide), h.accounted.itemsIter_eq, and_iff_left hfinished.1, ne_eq,
    not_not, List.drop_eq_nil_iff]

/-- **In every run, the lookup does not fail, the pending tasks are bounded, what is yielded is in order, and the loop ends with
    nothing pending. It has yielded all outcomes exactly if no wake-up filled the buffer with the last pending tasks.** -/
theorem yielded_all_iff (maxConcurrency : Nat) (call : Nat → α → β) (items : List α) {actions : List StreamAction}
    (hrun : Transition.run (streamStep call (.new maxConcurrency)) (.init items) actions = some state) :
    state.phase ≠ .failed ∧ state.pending.length ≤ (StreamLimits.new maxConcurrency).maxPending ∧
      state.yielded <+: outcomes call items ∧ actions.length ≤ 6 * items.length + 4 ∧
      (state.phase ≠ .finished → ∃ action state', streamStep call (.new maxConcurrency) state action = some state') ∧
      (state.phase = .finished →
        state.cancelled = [] ∧
          (state.yielded = outcomes call items ↔
            (items = [] ∨ 0 < maxConcurrency) ∧
              Transition.Along (streamStep call (.new maxConcurrency)) (LeavesRoom (.new maxConcurrency)) (.init items)
                actions)) := by
  have hinit := inv_init call (.new maxConcurrency) items
  have h : Inv call (.new maxConcurrency) items state :=
    Transition.invariant_run (fun _ _ _ h hstep => h.step hstep) hinit hrun
  refine ⟨?_, h.accounted.pending_le, ?_, ?_, h.exists_step, fun hphase => ⟨h.accounted.cancelled_nil, ?_⟩⟩
  · intro hfailed
    have hphase := h.atPhase
    unfold AtPhase at hphase
    rw [hfailed] at hphase
    exact hphase
  · rw [h.accounted.yielded_eq]
    exact List.take_prefix _ _
  · have hlength := Transition.length_run_le (fun _ _ _ h hstep => h.step hstep) (fun _ _ _ h hstep => h.remaining_lt hstep)
      hinit hrun
    have hremaining : (init items : StreamState α β).remaining = 6 * items.length + 4 := rfl
    omega
  · rw [h.yielded_eq_iff hphase, ← not_stranded_init]
    exact Transition.along_iff (fun _ _ _ h hstep => h.step hstep) (fun _ _ _ h hstep => h.stranded_iff hstep) hinit hrun

/-- The outcome of an item is the item. -/
def echo (_ : Nat) (item : Nat) : Nat := item

/-- Two tasks that are done at one wake-up, the second one first. -/
def swappedRun : List StreamAction :=
  List.replicate 5 .advance ++ .wake [1, 0] :: List.replicate 5 .advance

theorem swappedRun_yielded :
    ∃ state, Transition.run (streamStep echo (.new 1)) (.init [10, 20]) swappedRun = some state ∧
      state.phase = .finished ∧ state.yielded = [10, 20] ∧ state.cancelled = [] ∧
        Transition.Along (streamStep echo (.new 1)) (LeavesRoom (.new 1)) (.init [10, 20]) swappedRun := by
  have hruns : (Transition.run (streamStep echo (.new 1)) (.init [10, 20]) swappedRun).map
      (fun state => (state.phase, state.yielded)) = some (.finished, [10, 20]) := by decide +kernel
  obtain ⟨state, hrun, hstate⟩ := Option.map_eq_some_iff.mp hruns
  obtain ⟨hphase, hyielded⟩ := Prod.mk.inj hstate
  obtain ⟨-, -, -, -, -, hfinished⟩ := yielded_all_iff 1 echo [10, 20] hrun
  obtain ⟨hcancelled, hiff⟩ := hfinished hphase
  exact ⟨state, hrun, hphase, hyielded, hcancelled, (hiff.mp hyielded).2⟩

/-- 22 items and a concurrency of two: the first task completes when 20 results are in the buffer. -/
def slowFirstRun : List StreamAction :=
  List.replicate 9 .advance ++
    .wake [1, 2, 3, 4, 5] :: List.replicate 8 .advance ++
    .wake [6, 7, 8, 9, 10] :: List.replicate 8 .advance ++
    .wake [11, 12, 13, 14, 15] :: List.replicate 8 .advance ++
    .wake [16, 17, 18, 19, 20] :: List.replicate 3 .advance ++
    .wake [0] :: List.replicate 24 .advance

/-- The last item is lost. -/
theorem slowFirstRun_not_yielded :
    (Transition.run (streamStep echo (.new 2)) (.init (List.range 22)) slowFirstRun).map
        (fun state => (state.phase, state.yielded)) = some (.finished, List.range 21) ∧
      outcomes echo (List.range 22) = List.range 22 :=
  ⟨by decide +kernel, by decide +kernel⟩

end AsyncUdf

end Fenic
