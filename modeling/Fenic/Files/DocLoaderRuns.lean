import Fenic.Files.DocLoader
import Fenic.Lib.Except
import Fenic.Lib.Rows
import Mathlib.Data.List.Nodup
import Mathlib.Data.List.Perm.Lattice
import Mathlib.Data.List.Range

/-!
# `Files.DocLoaderRuns` — all runs of the document loader

`Inv` says of a state which futures there are: those that were collected, in the order of the rows, those that are pending, and
none else. As long as the iterator has files, the pending ones and those that the main thread is about to submit are as many as
there are workers (`Inv.full`), so an empty set of pending futures means that every file was submitted. `measure` falls with
each step.

`loadsAll_iff` is for any function of a file, `processSingleFile_loadsAll_iff` for the one that loads documents: it raises where
the path is no URL, outside of its `try`.
-/

namespace Fenic
namespace DocLoader

open Transition

variable {α ε ρ : Type}

/-! ## The invariant -/

/-- The futures that the main thread is still to submit before it next looks at the set. -/
def Phase.owed : Phase → Nat
  | .starting left => left
  | .refilling _ => 1
  | .raised _ => 1
  | _ => 0

/-- The future whose result was an exception. -/
def Phase.lost : Phase → List Nat
  | .raised future => [future]
  | _ => []

def Phase.snapshot : Phase → List Nat
  | .waiting snapshot => snapshot
  | .refilling snapshot => snapshot
  | _ => []

/-- The row is the result of the future. -/
def State.Result (process : α → Except ε ρ) (state : State α ρ) (future : Nat) (row : ρ) : Prop :=
  ∃ file, state.submitted[future]? = some file ∧ process file = .ok row

structure Inv (process : α → Except ε ρ) (files : List α) (maxWorkers : Nat) (state : State α ρ) : Prop where
  files_eq : state.submitted ++ state.it = files
  futures : ∃ collected, (collected ++ (state.pending ++ state.phase.lost)).Perm (List.range state.submitted.length) ∧
    (∀ future ∈ collected ++ state.phase.lost, future ∈ state.finished) ∧
    List.Forall₂ (state.Result process) collected state.rows
  lost : ∀ future ∈ state.phase.lost, ∃ file error, state.submitted[future]? = some file ∧ process file = .error error
  snapshot_nodup : state.phase.snapshot.Nodup
  snapshot_subset : state.phase.snapshot ⊆ state.pending
  finished_nodup : state.finished.Nodup
  finished_lt : ∀ future ∈ state.finished, future < state.submitted.length
  room : state.pending.length + state.phase.owed ≤ maxWorkers
  full : state.it = [] ∨ state.pending.length + state.phase.owed = maxWorkers
  done : state.phase = .done → state.pending = []

namespace Inv

variable {process : α → Except ε ρ} {files : List α} {maxWorkers : Nat} {state : State α ρ}

theorem init : Inv process files maxWorkers (State.init files maxWorkers) where
  files_eq := rfl
  futures := ⟨[], List.Perm.refl [], by simp [Phase.lost, State.init], .nil⟩
  lost := by simp [Phase.lost, State.init]
  snapshot_nodup := List.nodup_nil
  snapshot_subset := List.nil_subset _
  finished_nodup := List.nodup_nil
  finished_lt := by simp [State.init]
  room := by simp [State.init, Phase.owed]
  full := .inr (by simp [State.init, Phase.owed])
  done := by simp [State.init]

/-- The pending futures are apart. -/
theorem pending_nodup (h : Inv process files maxWorkers state) : state.pending.Nodup := by
  obtain ⟨collected, hperm, -, -⟩ := h.futures
  have hnodup := hperm.nodup_iff.mpr List.nodup_range
  exact (List.nodup_append.mp (List.nodup_append.mp hnodup).2.1).1

variable {future : Nat}

theorem pending_lt (h : Inv process files maxWorkers state) (hmem : future ∈ state.pending) :
    future < state.submitted.length := by
  obtain ⟨collected, hperm, -, -⟩ := h.futures
  have hrange : future ∈ List.range state.submitted.length :=
    hperm.subset (List.mem_append_right _ (List.mem_append_left _ hmem))
  exact List.mem_range.mp hrange

/-- A submission that no worker is done with is pending. -/
theorem unfinished_subset (h : Inv process files maxWorkers state) : state.unfinished ⊆ state.pending := by
  intro future hfuture
  obtain ⟨hrange, hunfinished⟩ := List.mem_filter.mp hfuture
  obtain ⟨collected, hperm, hfinished, -⟩ := h.futures
  have hnot : future ∉ state.finished := of_decide_eq_true hunfinished
  rcases List.mem_append.mp (hperm.symm.subset hrange) with hmem | hmem
  · exact absurd (hfinished future (List.mem_append_left _ hmem)) hnot
  · rcases List.mem_append.mp hmem with hmem | hmem
    · exact hmem
    · exact absurd (hfinished future (List.mem_append_right _ hmem)) hnot

/-- There are as many unfinished submissions as pending futures at most. -/
theorem unfinished_le (h : Inv process files maxWorkers state) : state.unfinished.length ≤ maxWorkers := by
  have hnodup : state.unfinished.Nodup := List.nodup_range.filter _
  have hle := (List.subperm_of_subset hnodup h.unfinished_subset).length_le
  have hroom := h.room
  omega

/-! ## The steps -/

/-- A phase in which no future is lost goes over to another one. -/
theorem withPhase (h : Inv process files maxWorkers state) (phase : Phase) (hlost : state.phase.lost = [])
    (hlost' : phase.lost = []) (hnodup : phase.snapshot.Nodup) (hsubset : phase.snapshot ⊆ state.pending)
    (hroom : state.pending.length + phase.owed ≤ maxWorkers)
    (hfull : state.it = [] ∨ state.pending.length + phase.owed = maxWorkers) (hdone : phase = .done → state.pending = []) :
    Inv process files maxWorkers { state with phase } where
  files_eq := h.files_eq
  futures := by
    obtain ⟨collected, hperm, hfinished, hrows⟩ := h.futures
    refine ⟨collected, ?_, ?_, hrows⟩
    · rw [hlost] at hperm
      rw [hlost']
      exact hperm
    · rw [hlost] at hfinished
      rw [hlost']
      exact hfinished
  lost := by simp [hlost']
  snapshot_nodup := hnodup
  snapshot_subset := hsubset
  finished_nodup := h.finished_nodup
  finished_lt := h.finished_lt
  room := hroom
  full := hfull
  done := hdone

theorem result_append {row : ρ} {file : α} (h : state.Result process future row) :
    State.Result process { state with submitted := state.submitted ++ [file] } future row := by
  obtain ⟨found, hfound, hrow⟩ := h
  have hlt : future < state.submitted.length := (List.getElem?_eq_some_iff.mp hfound).1
  refine ⟨found, ?_, hrow⟩
  show (state.submitted ++ [file])[future]? = some found
  rw [List.getElem?_append_left hlt, hfound]

/-- One file is submitted, and the main thread owes one less. -/
theorem submitNext (h : Inv process files maxWorkers state) {phase : Phase} {file : α} {it : List α}
    (hit : state.it = file :: it) (hlost : state.phase.lost = []) (hlost' : phase.lost = [])
    (hnodup : phase.snapshot.Nodup) (hsubset : phase.snapshot ⊆ state.pending)
    (howed : state.phase.owed = phase.owed + 1) (hdone : phase ≠ .done) :
    Inv process files maxWorkers { state.submitNext with phase } := by
  have hfull := h.full
  simp only [hit, reduceCtorEq, false_or] at hfull
  unfold State.submitNext
  rw [hit]
  exact {
    files_eq := by
      have heq := h.files_eq
      rw [hit] at heq
      show state.submitted ++ [file] ++ it = files
      rw [List.append_assoc]
      exact heq
    futures := by
      obtain ⟨collected, hperm, hfinished, hrows⟩ := h.futures
      rw [hlost, List.append_nil] at hperm hfinished
      refine ⟨collected, ?_, ?_, hrows.imp fun _ _ => result_append⟩
      · show (collected ++ (state.pending ++ [state.submitted.length] ++ phase.lost)).Perm
          (List.range (state.submitted ++ [file]).length)
        rw [hlost', List.append_nil, List.length_append, List.length_singleton, List.range_succ, ← List.append_assoc]
        exact hperm.append_right _
      · rw [hlost', List.append_nil]
        exact hfinished
    lost := by simp [hlost']
    snapshot_nodup := hnodup
    snapshot_subset := fun future hmem => List.mem_append_left _ (hsubset hmem)
    finished_nodup := h.finished_nodup
    finished_lt := fun future hmem => by
      have hlt := h.finished_lt future hmem
      show future < (state.submitted ++ [file]).length
      rw [List.length_append]
      omega
    room := by
      show (state.pending ++ [state.submitted.length]).length + phase.owed ≤ maxWorkers
      rw [List.length_append, List.length_singleton]
      omega
    full := .inr (by
      show (state.pending ++ [state.submitted.length]).length + phase.owed = maxWorkers
      rw [List.length_append, List.length_singleton]
      omega)
    done := fun h => absurd h hdone }

variable {next : State α ρ}

theorem advance (h : Inv process files maxWorkers state) (hstep : state.advance = some next) :
    Inv process files maxWorkers next := by
  have hroom := h.room
  have hfull := h.full
  have hsnapshot := h.snapshot_subset
  have hnodup := h.snapshot_nodup
  unfold State.advance at hstep
  split at hstep
  next hphase =>
    cases hstep
    rw [hphase] at hroom hfull
    exact h.withPhase .checking (by rw [hphase]; rfl) rfl List.nodup_nil (List.nil_subset _) hroom hfull nofun
  next left hphase =>
    split at hstep
    next hempty =>
      cases hstep
      have hless : state.pending.length ≤ maxWorkers := Nat.le_of_add_right_le hroom
      exact h.withPhase .checking (by rw [hphase]; rfl) rfl List.nodup_nil (List.nil_subset _) hless
        (.inl (List.isEmpty_iff.mp hempty)) nofun
    next hne =>
      cases hstep
      obtain ⟨file, it, hit⟩ := List.exists_cons_of_ne_nil fun heq => hne (List.isEmpty_iff.mpr heq)
      exact h.submitNext hit (by rw [hphase]; rfl) rfl List.nodup_nil (List.nil_subset _) (by rw [hphase]; rfl) nofun
  next hphase =>
    rw [hphase] at hroom hfull
    split at hstep
    next hempty =>
      cases hstep
      exact h.withPhase .done (by rw [hphase]; rfl) rfl List.nodup_nil (List.nil_subset _) hroom hfull
        fun _ => List.isEmpty_iff.mp hempty
    · cases hstep
      exact h.withPhase (.waiting state.pending) (by rw [hphase]; rfl) rfl h.pending_nodup (List.Subset.refl _) hroom hfull nofun
  next hphase =>
    rw [hphase] at hroom hfull
    cases hstep
    exact h.withPhase .checking (by rw [hphase]; rfl) rfl List.nodup_nil (List.nil_subset _) hroom hfull nofun
  next => cases hstep
  next snapshot hphase =>
    rw [hphase] at hroom hfull hsnapshot hnodup
    cases hstep
    cases hit : state.it with
    | nil =>
      have hsame : state.submitNext = state := by rw [State.submitNext, hit]
      rw [hsame]
      have hless : state.pending.length ≤ maxWorkers := Nat.le_of_add_right_le hroom
      exact h.withPhase (.waiting snapshot) (by rw [hphase]; rfl) rfl hnodup hsnapshot hless (.inl hit) nofun
    | cons file it =>
      exact h.submitNext hit (by rw [hphase]; rfl) rfl hnodup hsnapshot (by rw [hphase]; rfl) nofun
  next => cases hstep
  next => cases hstep

theorem collect (h : Inv process files maxWorkers state)
    (hstep : state.collect process future = some next) : Inv process files maxWorkers next := by
  have hroom := h.room
  have hfull := h.full
  have hsubset := h.snapshot_subset
  have hnodup := h.snapshot_nodup
  obtain ⟨collected, hperm, hfinished, hrows⟩ := h.futures
  unfold State.collect at hstep
  split at hstep
  next snapshot hphase =>
    rw [hphase] at hroom hfull hsubset hnodup hperm hfinished
    simp only [Phase.lost, List.append_nil] at hperm hfinished
    split at hstep
    next hready =>
      have hmem : future ∈ state.pending := hsubset hready.1
      have hlength : (state.pending.erase future).length + 1 = state.pending.length := by
        rw [List.length_erase_of_mem hmem]
        have hpos := List.length_pos_of_mem hmem
        omega
      -- the future moves from the pending ones to those that were collected, or is lost
      have hmoved : (collected ++ ([future] ++ state.pending.erase future)).Perm (List.range state.submitted.length) :=
        ((List.perm_cons_erase hmem).symm.append_left collected).trans hperm
      cases hfile : state.submitted[future]? with
      | none => simp [hfile] at hstep
      | some file =>
        rw [hfile, Option.map_some] at hstep
        cases hprocess : process file with
        | ok row =>
          rw [hprocess] at hstep
          cases hstep
          exact {
            files_eq := h.files_eq
            futures := by
              refine ⟨collected ++ [future], ?_, ?_, ?_⟩
              · simpa [Phase.lost] using hmoved
              · intro other hother
                rcases List.mem_append.mp hother with hother | hother
                · rcases List.mem_append.mp hother with hother | hother
                  · exact hfinished other hother
                  · rw [List.mem_singleton.mp hother]
                    exact hready.2
                · exact absurd hother List.not_mem_nil
              · exact List.rel_append hrows (.cons ⟨file, hfile, hprocess⟩ .nil)
            lost := by simp [Phase.lost]
            snapshot_nodup := hnodup.erase future
            snapshot_subset := by
              intro other hother
              have hne : other ≠ future := (List.Nodup.mem_erase_iff hnodup).mp hother |>.1
              exact (List.mem_erase_of_ne hne).mpr (hsubset (List.mem_of_mem_erase hother))
            finished_nodup := h.finished_nodup
            finished_lt := h.finished_lt
            room := by simp only [Phase.owed] at hroom ⊢; omega
            full := hfull.imp_right fun heq => by simp only [Phase.owed] at heq ⊢; omega
            done := nofun }
        | error e =>
          rw [hprocess] at hstep
          cases hstep
          exact {
            files_eq := h.files_eq
            futures := by
              refine ⟨collected, ?_, ?_, hrows⟩
              · exact (List.perm_append_comm.append_left collected).trans hmoved
              · intro other hother
                rcases List.mem_append.mp hother with hother | hother
                · exact hfinished other hother
                · rw [List.mem_singleton.mp hother]
                  exact hready.2
            lost := by
              intro other hother
              rw [List.mem_singleton.mp hother]
              exact ⟨file, e, hfile, hprocess⟩
            snapshot_nodup := List.nodup_nil
            snapshot_subset := List.nil_subset _
            finished_nodup := h.finished_nodup
            finished_lt := h.finished_lt
            room := by simp only [Phase.owed] at hroom ⊢; omega
            full := hfull.imp_right fun heq => by simp only [Phase.owed] at heq ⊢; omega
            done := nofun }
    · cases hstep
  · cases hstep

theorem finish (h : Inv process files maxWorkers state)
    (hstep : state.finish future = some next) : Inv process files maxWorkers next := by
  unfold State.finish at hstep
  split at hstep
  next hready =>
    cases hstep
    obtain ⟨collected, hperm, hfinished, hrows⟩ := h.futures
    exact { h with
      futures := ⟨collected, hperm, fun other hother => List.mem_cons_of_mem future (hfinished other hother), hrows⟩
      finished_nodup := h.finished_nodup.cons hready.2
      finished_lt := by
        intro other hother
        rcases List.mem_cons.mp hother with rfl | hother
        · exact hready.1
        · exact h.finished_lt other hother }
  · cases hstep

theorem step (state : State α ρ) (action : Action) (next : State α ρ) (h : Inv process files maxWorkers state)
    (hstep : state.step process action = some next) : Inv process files maxWorkers next := by
  cases action with
  | advance => exact h.advance hstep
  | collect future => exact h.collect hstep
  | finish future => exact h.finish hstep

theorem reachable (h : Reachable process files maxWorkers state) : Inv process files maxWorkers state := by
  obtain ⟨as, hrun⟩ := h
  exact invariant_run step init hrun

end Inv

/-! ## Runs end -/

/-- What is left to do in a phase; a round of the outer loop ends above where it starts, and has collected a future. -/
def Phase.weight : Phase → Nat
  | .starting left => 5 + left
  | .checking => 2
  | .waiting [] => 3
  | .waiting (_ :: _) => 1
  | .refilling _ => 4
  | .done => 0
  | .raised _ => 0

/-- The files that were not collected weigh more than any phase; a worker that is done takes one off. -/
def State.measure (state : State α ρ) : Nat :=
  10 * (state.it.length + state.pending.length) + (state.it.length + state.submitted.length - state.finished.length) +
    state.phase.weight

theorem Phase.weight_waiting_le (snapshot : List Nat) : (Phase.waiting snapshot).weight ≤ 3 := by
  cases snapshot with
  | nil => exact Nat.le_refl 3
  | cons future snapshot => exact (by decide : 1 ≤ 3)

theorem State.submitNext_measure (state : State α ρ) (phase : Phase) :
    State.measure { state.submitNext with phase } + state.phase.weight = state.measure + phase.weight := by
  unfold State.submitNext State.measure
  cases hit : state.it with
  | nil => simp only [hit]; omega
  | cons file it =>
    have hsubmitted : (state.submitted ++ [file]).length = state.submitted.length + 1 := List.length_append
    have hpending : (state.pending ++ [state.submitted.length]).length = state.pending.length + 1 := List.length_append
    simp only [hsubmitted, hpending, List.length_cons]
    omega

theorem Inv.finished_le {process : α → Except ε ρ} {files : List α} {maxWorkers : Nat} {state : State α ρ}
    (h : Inv process files maxWorkers state) : state.finished.length ≤ state.submitted.length := by
  have hsubset : state.finished ⊆ List.range state.submitted.length :=
    fun future hfuture => List.mem_range.mpr (h.finished_lt future hfuture)
  have hle := (List.subperm_of_subset h.finished_nodup hsubset).length_le
  rwa [List.length_range] at hle

theorem State.advance_measure {state next : State α ρ} (hstep : state.advance = some next) :
    next.measure < state.measure := by
  have hsubmit := state.submitNext_measure
  unfold State.advance at hstep
  split at hstep
  next hphase =>
    cases hstep
    simp only [State.measure, hphase, Phase.weight]
    omega
  next left hphase =>
    split at hstep
    · cases hstep
      simp only [State.measure, hphase, Phase.weight]
      omega
    · cases hstep
      have heq := hsubmit (.starting left)
      have hbefore : state.phase.weight = 5 + (left + 1) := by rw [hphase]; rfl
      have hafter : (Phase.starting left).weight = 5 + left := rfl
      omega
  next hphase =>
    split at hstep
    · cases hstep
      simp only [State.measure, hphase, Phase.weight]
      omega
    next hne =>
      cases hstep
      obtain ⟨future, pending, hpending⟩ := List.exists_cons_of_ne_nil fun heq => hne (List.isEmpty_iff.mpr heq)
      simp only [State.measure, hphase, hpending, Phase.weight]
      omega
  next hphase =>
    cases hstep
    simp only [State.measure, hphase, Phase.weight]
    omega
  next => cases hstep
  next snapshot hphase =>
    cases hstep
    have heq := hsubmit (.waiting snapshot)
    have hle := Phase.weight_waiting_le snapshot
    rw [hphase] at heq
    have hrefilling : (Phase.refilling snapshot).weight = 4 := rfl
    omega
  next => cases hstep
  next => cases hstep

namespace Inv

variable {process : α → Except ε ρ} {files : List α} {maxWorkers : Nat} {state : State α ρ}

theorem collect_measure (h : Inv process files maxWorkers state) {future : Nat} {next : State α ρ}
    (hstep : state.collect process future = some next) : next.measure < state.measure := by
  have hsubset := h.snapshot_subset
  unfold State.collect at hstep
  split at hstep
  next snapshot hphase =>
    rw [hphase] at hsubset
    split at hstep
    next hready =>
      have hmem : future ∈ state.pending := hsubset hready.1
      have hpos := List.length_pos_of_mem hmem
      have hlength := List.length_erase_of_mem hmem
      split at hstep
      · cases hstep
        simp only [State.measure, Phase.weight]
        omega
      · cases hstep
        simp only [State.measure, Phase.weight]
        omega
      · cases hstep
    · cases hstep
  · cases hstep

theorem step_measure (state : State α ρ) (action : Action) (next : State α ρ) (h : Inv process files maxWorkers state)
    (hstep : state.step process action = some next) : next.measure < state.measure := by
  cases action with
  | advance => exact State.advance_measure hstep
  | collect future => exact h.collect_measure hstep
  | finish future =>
    have hle := (h.finish hstep).finished_le
    simp only [State.step, State.finish] at hstep
    split at hstep
    · cases hstep
      simp only [State.measure, List.length_cons] at hle ⊢
      omega
    · cases hstep

/-! ## Where a run ends -/

/-- A state without steps is one in which the loop ended, or the result of a future was raised. -/
theorem phase_of_halted (h : Inv process files maxWorkers state) (hnone : ∀ action, state.step process action = none) :
    state.phase = .done ∨ ∃ future, state.phase = .raised future := by
  have hadvance : state.advance = none := hnone .advance
  unfold State.advance at hadvance
  split at hadvance
  · cases hadvance
  · split at hadvance <;> cases hadvance
  · split at hadvance <;> cases hadvance
  · cases hadvance
  next future snapshot hphase =>
    have hmem : future ∈ state.pending := h.snapshot_subset (by rw [hphase]; exact List.mem_cons_self)
    have hlt := h.pending_lt hmem
    -- the first future of the snapshot can be collected, or its worker can still finish
    by_cases hfinished : future ∈ state.finished
    · have hcollect := hnone (.collect future)
      rw [State.step, State.collect, hphase] at hcollect
      have hready : future ∈ future :: snapshot ∧ future ∈ state.finished := ⟨List.mem_cons_self, hfinished⟩
      simp only [if_pos hready, List.getElem?_eq_getElem hlt, Option.map_some] at hcollect
      cases hresult : process state.submitted[future] with
      | ok _ | error _ => rw [hresult] at hcollect; cases hcollect
    · have hfinish := hnone (.finish future)
      rw [State.step, State.finish, if_pos ⟨hlt, hfinished⟩] at hfinish
      cases hfinish
  · cases hadvance
  next hphase => exact .inl hphase
  next future hphase => exact .inr ⟨future, hphase⟩

/-- Where nothing is left to do, every worker is done. -/
theorem unfinished_of_halted (hnone : ∀ action, state.step process action = none) : state.unfinished = [] := by
  apply List.filter_eq_nil_iff.mpr
  intro future hfuture hunfinished
  have hfinish := hnone (.finish future)
  rw [State.step, State.finish, if_pos ⟨List.mem_range.mp hfuture, of_decide_eq_true hunfinished⟩] at hfinish
  cases hfinish

/-- The loop ends when every file was submitted. -/
theorem submitted_of_done (h : Inv process files maxWorkers state) (hworkers : 0 < maxWorkers)
    (hdone : state.phase = .done) : state.submitted = files := by
  have hit : state.it = [] := by
    rcases h.full with hit | hfull
    · exact hit
    · rw [h.done hdone, hdone, List.length_nil] at hfull
      have howed : Phase.done.owed = 0 := rfl
      omega
  have heq := h.files_eq
  rwa [hit, List.append_nil] at heq

/-- Where the loop ended, the rows are the results of all the files. -/
theorem rows_of_done (h : Inv process files maxWorkers state) (hworkers : 0 < maxWorkers) (hdone : state.phase = .done) :
    ∃ collected, collected.Perm (List.range files.length) ∧
      List.Forall₂ (fun future row => ∃ file, files[future]? = some file ∧ process file = .ok row) collected state.rows := by
  obtain ⟨collected, hperm, -, hrows⟩ := h.futures
  have hsubmitted := h.submitted_of_done hworkers hdone
  rw [h.done hdone, hdone, hsubmitted] at hperm
  refine ⟨collected, by simpa [Phase.lost] using hperm, hrows.imp fun future row hresult => ?_⟩
  rw [← hsubmitted]
  exact hresult

end Inv

/-! ## The loader -/

theorem map_getElem?_range (files : List α) : (List.range files.length).map (fun i => files[i]?) = files.map some := by
  apply List.ext_getElem
  · simp
  · intro i hi hi'
    simp

/-- **The loader does what it is for exactly on the files whose processing raises nothing.** -/
theorem loadsAll_iff (process : α → Except ε ρ) {expected : α → ρ}
    (hexpected : ∀ file row, process file = .ok row → row = expected file) {files : List α} {maxWorkers : Nat}
    (hworkers : 0 < maxWorkers) :
    LoadsAll process expected files maxWorkers ↔ ∀ file ∈ files, ∃ row, process file = .ok row := by
  constructor
  · intro h file hfile
    -- some run ends, and there the file has its row
    obtain ⟨state, hreaches, hnone⟩ := exists_halted (P := Inv process files maxWorkers) (μ := State.measure) Inv.step
      Inv.step_measure Inv.init
    obtain ⟨hdone, -⟩ := h.yields state hreaches hnone
    obtain ⟨collected, hperm, hrows⟩ := (Inv.reachable hreaches).rows_of_done hworkers hdone
    obtain ⟨i, hi⟩ := List.mem_iff_getElem?.mp hfile
    have hmem : i ∈ collected := by
      apply hperm.symm.subset
      exact List.mem_range.mpr (List.getElem?_eq_some_iff.mp hi).1
    obtain ⟨row, -, file', hfile', hrow⟩ := Rows.exists_right_of_forall₂ hrows hmem
    rw [hi] at hfile'
    cases hfile'
    exact ⟨row, hrow⟩
  · intro hall
    refine ⟨?_, ?_, ?_, ?_⟩
    · exact fun state hreach => (Inv.reachable hreach).files_eq
    · exact fun state hreach => (Inv.reachable hreach).unfinished_le
    · refine ⟨State.measure (State.init files maxWorkers : State α ρ), fun as state hrun => ?_⟩
      have hle := length_run_le (P := Inv process files maxWorkers) (μ := State.measure) Inv.step Inv.step_measure
        Inv.init hrun
      omega
    · intro state hreach hnone
      have hinv := Inv.reachable hreach
      have hphase : state.phase = .done := by
        rcases hinv.phase_of_halted hnone with hdone | ⟨future, hraised⟩
        · exact hdone
        · obtain ⟨file, error, hfile, herror⟩ := hinv.lost future (by rw [hraised]; exact List.mem_singleton_self future)
          have hmem : file ∈ files := by
            rw [← hinv.files_eq]
            exact List.mem_append_left _ (List.mem_of_getElem? hfile)
          obtain ⟨row, hrow⟩ := hall file hmem
          rw [hrow] at herror
          cases herror
      refine ⟨hphase, hinv.submitted_of_done hworkers hphase, Inv.unfinished_of_halted hnone, ?_⟩
      obtain ⟨collected, hperm, hrows⟩ := hinv.rows_of_done hworkers hphase
      have hvalues : state.rows.map some = collected.map fun i => files[i]?.map expected := by
        apply Rows.map_eq_of_forall₂ _ hrows
        rintro i row ⟨file, hfile, hrow⟩
        rw [hfile, Option.map_some, hexpected file row hrow]
      have hsome : (state.rows.map some).Perm ((files.map expected).map some) := by
        have hmap := hperm.map fun i => files[i]?.map expected
        have hfiles : (List.range files.length).map (fun i => files[i]?.map expected) = (files.map expected).map some := by
          have hrange := congrArg (List.map (Option.map expected)) (map_getElem?_range files)
          rw [List.map_map, List.map_map] at hrange
          rw [List.map_map]
          exact hrange
        rw [hvalues, ← hfiles]
        exact hmap
      exact (List.map_perm_map_iff fun _ _ => Option.some.inj).mp hsome

/-! ## Loading documents -/

theorem processSingleFile_eq_ok {world : World} {path : String} {row : Row}
    (h : processSingleFile world path = .ok row) : row = expectedRow world path := by
  obtain ⟨scheme, hscheme, h⟩ := Except.bind_eq_ok.mp h
  cases h
  rw [expectedRow, hscheme, Except.ok_bind]

theorem processSingleFile_isOk_iff (world : World) (path : String) :
    (∃ row, processSingleFile world path = .ok row) ↔ ∃ scheme, getPathScheme world path = .ok scheme := by
  unfold processSingleFile
  cases hscheme : getPathScheme world path with
  | error message =>
    constructor
    · rintro ⟨row, h⟩
      cases h
    · rintro ⟨scheme, h⟩
      cases h
  | ok scheme => exact ⟨fun _ => ⟨scheme, rfl⟩, fun _ => ⟨_, rfl⟩⟩

/-- Documents are all loaded, each into one row, exactly when each path has a scheme that can be told. -/
theorem processSingleFile_loadsAll_iff (world : World) (files : List String) (maxWorkers : Nat)
    (hworkers : 0 < maxWorkers) :
    LoadsAll (processSingleFile world) (expectedRow world) files maxWorkers ↔
      ∀ file ∈ files, ∃ scheme, getPathScheme world file = .ok scheme := by
  rw [loadsAll_iff (processSingleFile world) (fun _ _ => processSingleFile_eq_ok) hworkers]
  exact forall₂_congr fun file _ => processSingleFile_isOk_iff world file

/-- A world of two documents, one of which cannot be read. -/
def twoDocuments : World where
  netlocError _ := none
  read path := if path = "docs/a.md" then .ok "# A" else .error "[Errno 13] Permission denied"

theorem twoDocuments_loadsAll :
    LoadsAll (processSingleFile twoDocuments) (expectedRow twoDocuments) ["docs/a.md", "docs/b.md", "docs/a.md"] 2 := by
  apply (processSingleFile_loadsAll_iff twoDocuments _ 2 (by decide)).mpr
  intro file hfile
  refine ⟨.localfs, ?_⟩
  simp only [List.mem_cons, List.not_mem_nil, or_false] at hfile
  rcases hfile with rfl | rfl | rfl <;> rfl

/-- A path whose netloc has one bracket: its worker raises, and the loader ends without a row. -/
theorem bracketPath_not_loadsAll :
    ¬ ∀ (world : World) (files : List String) (maxWorkers : Nat), 0 < maxWorkers →
      LoadsAll (processSingleFile world) (expectedRow world) files maxWorkers := by
  intro hall
  have h := hall twoDocuments ["//[a/x.md"] 1 (by decide)
  have hrun : run (State.step (processSingleFile twoDocuments)) (State.init ["//[a/x.md"] 1)
      [.advance, .advance, .advance, .finish 0, .collect 0] =
      some ⟨.raised 0, [], ["//[a/x.md"], [0], [], []⟩ := rfl
  have hnone : ∀ action, State.step (processSingleFile twoDocuments) ⟨.raised 0, [], ["//[a/x.md"], [0], [], []⟩ action =
      none := by
    intro action
    cases action with
    | advance => rfl
    | collect future => rfl
    | finish future =>
      apply if_neg
      rintro ⟨hlt, hnot⟩
      have hzero : future = 0 := Nat.lt_one_iff.mp hlt
      exact hnot (by rw [hzero]; exact List.mem_singleton_self 0)
  exact absurd (h.yields _ ⟨_, hrun⟩ hnone).1 nofun

end DocLoader
end Fenic
