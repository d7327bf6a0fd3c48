import Mathlib.Logic.Function.Basic
import Fenic.Lib.StoreProgram
import Fenic.Lib.Transition

/-!
# `Lib.Interleaving` — operations of several threads on one store

Threads call operations, one after the other, and take turns: one step of the system is one question or one change of one thread.
An operation is a program in sections. A locked section holds the lock from its first step to its last, and a guarded question
waits for the lock of others.

A system is `Linearizable` if its operations have the results, and leave the store, that they have one after the other in some
order in which no operation comes before one that was over when it began. An operation that has asked its questions too early for
the change it makes spoils this: what it found out may be stale. `Fresh` says of a step that it ends no such operation.

## Contents
- **Sections.** `Sections`, and that their steps are those of the program they make.
- **The system.** `System.step`, with `step_cases` for what a step can do.
- **Linearizability.** `linearizable_run`: runs with fresh steps are linearizable.
- **Locked operations.** Those that hold the lock throughout need no such condition (`linearizable_of_locked`).
-/

namespace Interleaving

/-! ## Sections -/

/-- A program in sections. The lock is held over the whole of the last section, or over no section. -/
inductive Sections (S E α : Type) : Type 1 where
  | last (locked : Bool) (p : StoreProgram S E α)
  | first {β : Type} (p : StoreProgram S E β) (next : Except E β → Sections S E α)

namespace Sections

variable {S E α : Type}

/-- The program that the sections make. -/
def program : Sections S E α → StoreProgram S E α
  | last _ p => p
  | first p next => p.andThen fun result => (next result).program

/-- A section that is over makes way for the next one. -/
def settle : Sections S E α → Sections S E α
  | last locked p => last locked p
  | first (.done result) next => (next result).settle
  | first p next => first p next

def locked : Sections S E α → Bool
  | last locked _ => locked
  | first _ _ => false

/-- What has been returned or raised, if nothing is left to do. -/
def result : Sections S E α → Option (Except E α)
  | last _ (.done result) => some result
  | _ => none

/-- Whether the next step has to wait for the lock. -/
def waits : Sections S E α → Bool
  | last locked p => locked || p.guarded
  | first p _ => p.guarded

def step : Sections S E α → S → Sections S E α × S
  | last locked p, s => (last locked (p.step s).1, (p.step s).2)
  | first p next, s => ((first (p.step s).1 next).settle, (p.step s).2)

/-- Where nothing is left to do in a section, it is the last one. -/
def Settled : Sections S E α → Prop
  | last _ _ => True
  | first p _ => p.running = true

theorem settled_settle (x : Sections S E α) : x.settle.Settled := by
  induction x with
  | last locked p => trivial
  | first p next ih =>
    cases p with
    | done result => exact ih result
    | query guarded ask next' => rfl
    | act update next' => rfl

theorem program_settle (x : Sections S E α) : x.settle.program = x.program := by
  induction x with
  | last locked p => rfl
  | first p next ih =>
    cases p with
    | done result => exact ih result
    | query guarded ask next' => rfl
    | act update next' => rfl

variable {x : Sections S E α}

theorem settled_step (h : x.Settled) (s : S) : (x.step s).1.Settled := by
  cases x with
  | last locked p => trivial
  | first p next => exact settled_settle _

/-- A step of the sections is a step of their program. -/
theorem program_step (h : x.Settled) (s : S) :
    ((x.step s).1.program, (x.step s).2) = x.program.step s := by
  cases x with
  | last locked p => rfl
  | first p next =>
    show (((first (p.step s).1 next).settle).program, (p.step s).2) = _
    rw [program_settle]
    exact (StoreProgram.step_andThen h _ s).symm

/-- The sections are over where their program is. -/
theorem result_eq_some (h : x.Settled) {r : Except E α} : x.result = some r ↔ x.program = .done r := by
  cases x with
  | last locked p =>
    cases p with
    | done result => exact ⟨fun hr => by cases hr; rfl, fun hr => by cases hr; rfl⟩
    | query _ _ _ | act _ _ => exact ⟨nofun, nofun⟩
  | first p next =>
    cases p with
    | done result => cases h
    | query _ _ _ | act _ _ => exact ⟨nofun, nofun⟩

end Sections

/-! ## The system -/

variable {Op S E α : Type}

/-- An operation under way: when it began, the questions that have been answered, the stores there have been since, and what is
    left to do. -/
structure Pending (Op S E α : Type) : Type 1 where
  operation : Op
  began : Nat
  answered : Nat
  moments : List S
  rest : Sections S E α

/-- An operation that is over. -/
structure Completed (Op E α : Type) where
  thread : Nat
  operation : Op
  result : Except E α
  began : Nat
  ended : Nat

/-- Each thread is idle or has an operation under way. One of them may hold the lock. -/
structure System (Op S E α : Type) : Type 1 where
  store : S
  clock : Nat
  holder : Option Nat
  threads : Nat → Option (Pending Op S E α)
  history : List (Completed Op E α)

inductive Action (Op : Type) where
  | call (thread : Nat) (operation : Op)
  | step (thread : Nat)

def Pending.sees (pending : Pending Op S E α) (s : S) : Pending Op S E α := { pending with moments := s :: pending.moments }

namespace System

/-- Before any operation. -/
def init (s : S) : System Op S E α := ⟨s, 0, none, fun _ => none, []⟩

/-- What the other threads have under way, in the store that they see now. -/
def others (system : System Op S E α) (store : S) (t : Nat) : Option (Pending Op S E α) := (system.threads t).map (·.sees store)

/-- The thread has come this far with its operation. -/
def advance (system : System Op S E α) (thread : Nat) (pending : Pending Op S E α) (store : S) (holder : Option Nat) :
    System Op S E α :=
  match pending.rest.result with
  | none =>
    { store := store
      clock := system.clock + 1
      holder := holder
      threads := Function.update (system.others store) thread (some (pending.sees store))
      history := system.history }
  | some result =>
    { store := store
      clock := system.clock + 1
      holder := if holder = some thread then none else holder
      threads := Function.update (system.others store) thread none
      history := system.history ++ [⟨thread, pending.operation, result, pending.began, system.clock⟩] }

variable (sections : Op → Sections S E α)

/-- What an operation is when it has just been called. -/
def called (system : System Op S E α) (operation : Op) : Pending Op S E α :=
  ⟨operation, system.clock, 0, [], (sections operation).settle⟩

/-- What an operation is after one more step. -/
def stepped (system : System Op S E α) (pending : Pending Op S E α) : Pending Op S E α :=
  { pending with answered := pending.answered + 1, rest := (pending.rest.step system.store).1 }

/-- A thread calls an operation, or takes the next step of the one it has under way. Only the first step of a locked section takes
    the lock, which is the same as to take it before and do nothing. -/
def step (system : System Op S E α) : Action Op → Option (System Op S E α)
  | .call thread operation =>
    if (system.threads thread).isSome then none
    else some (system.advance thread (system.called sections operation) system.store system.holder)
  | .step thread =>
    (system.threads thread).bind fun pending =>
      if pending.rest.waits && system.holder.any (· ≠ thread) then none
      else some (system.advance thread (system.stepped pending) (pending.rest.step system.store).2
        (if pending.rest.locked then some thread else system.holder))

variable {sections} {system system' : System Op S E α} {action : Action Op}

/-- What a step can do. -/
theorem step_cases (h : system.step sections action = some system') :
    (∃ thread operation, action = .call thread operation ∧ system.threads thread = none ∧
        system' = system.advance thread (system.called sections operation) system.store system.holder) ∨
      ∃ thread pending, action = .step thread ∧ system.threads thread = some pending ∧
        (pending.rest.waits = true → ∀ other, system.holder = some other → other = thread) ∧
        system' = system.advance thread (system.stepped pending) (pending.rest.step system.store).2
          (if pending.rest.locked then some thread else system.holder) := by
  cases action with
  | call thread operation =>
    rw [step] at h
    split at h
    · cases h
    · next hidle =>
        cases h
        exact Or.inl ⟨thread, operation, rfl, Option.not_isSome_iff_eq_none.mp hidle, rfl⟩
  | step thread =>
    obtain ⟨pending, hpending, h⟩ := Option.bind_eq_some_iff.mp h
    split at h
    · cases h
    · next hfree =>
        cases h
        refine Or.inr ⟨thread, pending, rfl, hpending, ?_, rfl⟩
        intro hwaits other hother
        simpa [hwaits, hother] using hfree

end System

/-! ## Linearizability -/

section

variable (program : Op → StoreProgram S E α)

/-- The operations one after the other, each with its result. -/
def Sequential : S → List (Completed Op E α) → S → Prop
  | s, [], s' => s = s'
  | s, e :: order, s' => ((program e.operation).run s).1 = e.result ∧ Sequential ((program e.operation).run s).2 order s'

/-- The order makes the results and the store, and no operation comes after one that began when it was over. -/
structure Linearizes (s₀ : S) (system : System Op S E α) (order : List (Completed Op E α)) : Prop where
  perm : order.Perm system.history
  sequential : Sequential program s₀ order system.store
  realTime : order.Pairwise fun e e' => e.began ≤ e'.ended

/-- The results and the store are those of some sequential order of the operations. -/
def Linearizable (s₀ : S) (system : System Op S E α) : Prop := ∃ order, Linearizes program s₀ system order

end

section

variable {program : Op → StoreProgram S E α} {s₀ s s' s'' : S} {order before since : List (Completed Op E α)}
  {e : Completed Op E α} {began : Nat}

theorem sequential_append : Sequential program s (before ++ since) s'' ↔
    ∃ s', Sequential program s before s' ∧ Sequential program s' since s'' := by
  induction before generalizing s with
  | nil =>
    constructor
    · intro h
      exact ⟨s, rfl, h⟩
    · rintro ⟨_, rfl, h⟩
      exact h
  | cons e before ih =>
    constructor
    · rintro ⟨hresult, h⟩
      obtain ⟨s', hbefore, hsince⟩ := ih.mp h
      exact ⟨s', ⟨hresult, hbefore⟩, hsince⟩
    · rintro ⟨s', ⟨hresult, hbefore⟩, hsince⟩
      exact ⟨hresult, ih.mpr ⟨s', hbefore, hsince⟩⟩

theorem Sequential.unique (h : Sequential program s order s') (h' : Sequential program s order s'') : s' = s'' := by
  induction order generalizing s with
  | nil => exact h.symm.trans h'
  | cons e order ih => exact ih h.2 h'.2

theorem sequential_singleton : Sequential program s [e] s' ↔ (program e.operation).run s = (e.result, s') := by
  constructor
  · rintro ⟨hresult, hstore⟩
    exact Prod.ext hresult hstore
  · intro h
    exact ⟨congrArg Prod.fst h, congrArg Prod.snd h⟩

/-- Two operations come in one of two orders. -/
theorem Linearizable.pair {system : System Op S E α} {e' : Completed Op E α} (h : Linearizable program s₀ system)
    (hhistory : system.history = [e, e']) :
    Sequential program s₀ [e, e'] system.store ∨ Sequential program s₀ [e', e] system.store := by
  obtain ⟨order, hperm, hsequential, -⟩ := h
  rw [hhistory] at hperm
  obtain ⟨before, since, rfl⟩ := List.append_of_mem (hperm.mem_iff.mpr List.mem_cons_self)
  have hothers : before ++ since = [e'] := ((List.perm_cons e).mp (List.perm_middle.symm.trans hperm)).eq_singleton
  rcases List.append_eq_singleton_iff.mp hothers with ⟨rfl, rfl⟩ | ⟨rfl, rfl⟩
  · exact Or.inl hsequential
  · exact Or.inr hsequential

/-- The sequential run comes by the store, with only operations after it that were not over at `began`. -/
def Passes (program : Op → StoreProgram S E α) (s₀ : S) (order : List (Completed Op E α)) (store : S) (began : Nat) (s : S) :
    Prop :=
  ∃ before since, order = before ++ since ∧ Sequential program s₀ before s ∧ Sequential program s since store ∧
    ∀ e ∈ since, began ≤ e.ended

theorem passes_last (h : Sequential program s₀ order s) : Passes program s₀ order s began s :=
  ⟨order, [], (List.append_nil order).symm, h, rfl, nofun⟩

/-- One more operation at the end. -/
theorem Passes.append (h : Passes program s₀ order s' began s) (hrun : (program e.operation).run s' = (e.result, s''))
    (hended : began ≤ e.ended) : Passes program s₀ (order ++ [e]) s'' began s := by
  obtain ⟨before, since, rfl, hbefore, hsince, hlate⟩ := h
  have hsince' : Sequential program s (since ++ [e]) s'' :=
    sequential_append.mpr ⟨s', hsince, sequential_singleton.mpr hrun⟩
  refine ⟨before, since ++ [e], List.append_assoc _ _ _, hbefore, hsince', ?_⟩
  intro e' he'
  rcases List.mem_append.mp he' with h | h
  · exact hlate e' h
  · rw [List.mem_singleton.mp h]
    exact hended

/-- One more operation where the run comes by a store that it leaves as it is. -/
theorem Passes.insert (h : Passes program s₀ (before ++ since) s' began s) (hbefore : Sequential program s₀ before s'')
    (hrun : (program e.operation).run s'' = (e.result, s'')) (hended : began ≤ e.ended) :
    Passes program s₀ (before ++ e :: since) s' began s := by
  obtain ⟨before', since', hsplit, hbefore', hsince', hlate⟩ := h
  have hcons : ∀ {rest s}, Sequential program s'' rest s → Sequential program s'' (e :: rest) s := by
    intro rest s hrest
    exact ⟨congrArg Prod.fst hrun, by rw [hrun]; exact hrest⟩
  rcases List.append_eq_append_iff.mp hsplit with ⟨middle, rfl, rfl⟩ | ⟨middle, rfl, rfl⟩
  · -- the operation comes before the store
    refine ⟨before ++ e :: middle, since', by simp, ?_, hsince', hlate⟩
    obtain ⟨t, ht, hmiddle⟩ := sequential_append.mp hbefore'
    cases ht.unique hbefore
    exact sequential_append.mpr ⟨s'', hbefore, hcons hmiddle⟩
  · -- and here after it
    refine ⟨before', middle ++ e :: since, by simp, hbefore', ?_, ?_⟩
    · obtain ⟨t, ht, hmiddle⟩ := sequential_append.mp hbefore
      cases ht.unique hbefore'
      obtain ⟨u, hu, hrest⟩ := sequential_append.mp hsince'
      cases hu.unique hmiddle
      exact sequential_append.mpr ⟨s'', hmiddle, hcons hrest⟩
    · intro e' he'
      rcases List.mem_append.mp he' with h | h
      · exact hlate e' (List.mem_append_left _ h)
      · rcases List.mem_cons.mp h with rfl | h
        · exact hended
        · exact hlate e' (List.mem_append_right _ h)

end

section

variable {Op S E α : Type} {sections : Op → Sections S E α} {s₀ : S} {system system' : System Op S E α}
  {order order' : List (Completed Op E α)} {pending : Pending Op S E α} {thread : Nat} {store : S} {holder : Option Nat}

/-- Where the operation is over with this step: a change is made when all its questions would have the answers that they had, and
    without a change there was a moment since it began at which they had. -/
def Fresh (sections : Op → Sections S E α) (system : System Op S E α) : Action Op → Prop
  | .call _ _ => True
  | .step thread => ∀ pending, system.threads thread = some pending →
      ∀ result, (pending.rest.step system.store).1.result = some result →
        if pending.rest.program.acts then
          (sections pending.operation).program.after pending.answered system.store = pending.rest.program
        else ∃ s ∈ pending.moments, (sections pending.operation).program.after (pending.answered + 1) s = .done result

/-- What holds of an operation under way. -/
structure Pending.Sound (sections : Op → Sections S E α) (s₀ : S) (order : List (Completed Op E α)) (store : S) (clock : Nat)
    (pending : Pending Op S E α) : Prop where
  settled : pending.rest.Settled
  actsLast : pending.rest.program.ActsLast
  began_le : pending.began ≤ clock
  passes : ∀ s ∈ pending.moments, Passes (fun operation => (sections operation).program) s₀ order store pending.began s

/-- The order linearizes the system, and every operation under way can still be put into it. -/
structure Explains (sections : Op → Sections S E α) (s₀ : S) (system : System Op S E α) (order : List (Completed Op E α)) :
    Prop extends Linearizes (fun operation => (sections operation).program) s₀ system order where
  began_le : ∀ e ∈ order, e.began ≤ system.clock
  sound : ∀ thread pending, system.threads thread = some pending → pending.Sound sections s₀ order system.store system.clock

theorem explains_init : Explains sections s₀ (.init s₀) [] where
  perm := List.Perm.refl _
  sequential := rfl
  realTime := List.Pairwise.nil
  began_le := nofun
  sound := nofun

/-- The passed stores are still passed after the next step, and the store of that step is one more. -/
theorem Pending.Sound.sees {clock clock' : Nat} {store' : S} (h : pending.Sound sections s₀ order store clock)
    (hclock : clock ≤ clock') (hlast : Sequential (fun operation => (sections operation).program) s₀ order' store')
    (hpasses : ∀ s, Passes (fun operation => (sections operation).program) s₀ order store pending.began s →
      Passes (fun operation => (sections operation).program) s₀ order' store' pending.began s) :
    (pending.sees store').Sound sections s₀ order' store' clock' where
  settled := h.settled
  actsLast := h.actsLast
  began_le := Nat.le_trans h.began_le hclock
  passes := by
    intro s hs
    rcases List.mem_cons.mp hs with rfl | hs
    · exact passes_last hlast
    · exact hpasses s (h.passes s hs)

theorem others_sound {clock' : Nat} {store' : S} (h : Explains sections s₀ system order) (hclock : system.clock ≤ clock')
    (hlast : Sequential (fun operation => (sections operation).program) s₀ order' store')
    (hpasses : ∀ began s, began ≤ system.clock →
      Passes (fun operation => (sections operation).program) s₀ order system.store began s →
      Passes (fun operation => (sections operation).program) s₀ order' store' began s)
    (hpending : system.others store' thread = some pending) : pending.Sound sections s₀ order' store' clock' := by
  obtain ⟨pending, hsome, rfl⟩ := Option.map_eq_some_iff.mp hpending
  have hsound := h.sound thread pending hsome
  exact hsound.sees hclock hlast fun s => hpasses _ s hsound.began_le

/-- A step with which the operation is not over. -/
theorem explains_advance (h : Explains sections s₀ system order)
    (hpending : pending.Sound sections s₀ order system.store system.clock) (hresult : pending.rest.result = none) :
    Explains sections s₀ (system.advance thread pending system.store holder) order := by
  unfold System.advance
  rw [hresult]
  refine { perm := h.perm, sequential := h.sequential, realTime := h.realTime, began_le := ?_, sound := ?_ }
  · intro e he
    exact Nat.le_trans (h.began_le e he) (Nat.le_succ _)
  · intro t p hp
    by_cases ht : t = thread
    · subst ht
      obtain rfl : pending.sees system.store = p := by simpa using hp
      exact hpending.sees (Nat.le_succ _) h.sequential fun s hs => hs
    · have hp' : system.others system.store t = some p := by simpa [Function.update_of_ne ht] using hp
      exact others_sound h (Nat.le_succ _) h.sequential (fun _ _ _ hs => hs) hp'

variable {result : Except E α}

/-- A step with which the operation is over, and comes in its place into the order. -/
theorem explains_complete (h : Explains sections s₀ system order)
    (hbegan : pending.began ≤ system.clock) (hresult : pending.rest.result = some result)
    (hperm : order'.Perm (order ++ [⟨thread, pending.operation, result, pending.began, system.clock⟩]))
    (hlast : Sequential (fun operation => (sections operation).program) s₀ order' store)
    (hrealTime : order'.Pairwise fun e e' => e.began ≤ e'.ended)
    (hpasses : ∀ began s, began ≤ system.clock →
      Passes (fun operation => (sections operation).program) s₀ order system.store began s →
      Passes (fun operation => (sections operation).program) s₀ order' store began s) :
    Explains sections s₀ (system.advance thread pending store holder) order' := by
  unfold System.advance
  rw [hresult]
  refine { perm := hperm.trans (h.perm.append_right _), sequential := hlast, realTime := hrealTime, began_le := ?_, sound := ?_ }
  · intro e he
    rcases List.mem_append.mp (hperm.mem_iff.mp he) with he | he
    · exact Nat.le_trans (h.began_le e he) (Nat.le_succ _)
    · rw [List.mem_singleton.mp he]
      exact Nat.le_trans hbegan (Nat.le_succ _)
  · intro t p hp
    by_cases ht : t = thread
    · subst ht
      simp at hp
    · have hp' : system.others store t = some p := by simpa [Function.update_of_ne ht] using hp
      exact others_sound h (Nat.le_succ _) hlast hpasses hp'

/-- The operation takes effect now. -/
theorem explains_append (h : Explains sections s₀ system order) (hbegan : pending.began ≤ system.clock)
    (hresult : pending.rest.result = some result)
    (hrun : (sections pending.operation).program.run system.store = (result, store)) :
    Explains sections s₀ (system.advance thread pending store holder)
      (order ++ [⟨thread, pending.operation, result, pending.began, system.clock⟩]) := by
  apply explains_complete h hbegan hresult (List.Perm.refl _)
  · exact sequential_append.mpr ⟨system.store, h.sequential, sequential_singleton.mpr hrun⟩
  · refine List.pairwise_append.mpr ⟨h.realTime, List.pairwise_singleton _ _, ?_⟩
    intro e he e' he'
    rw [List.mem_singleton.mp he']
    exact h.began_le e he
  · intro began s hclock hs
    exact hs.append hrun hclock

/-- The operation took effect at an earlier moment, without a change. -/
theorem explains_insert {s : S} (h : Explains sections s₀ system order)
    (hbegan : pending.began ≤ system.clock) (hresult : pending.rest.result = some result)
    (hs : Passes (fun operation => (sections operation).program) s₀ order system.store pending.began s)
    (hrun : (sections pending.operation).program.run s = (result, s)) :
    ∃ order', Explains sections s₀ (system.advance thread pending system.store holder) order' := by
  obtain ⟨before, since, rfl, hbefore, hsince, hlate⟩ := hs
  let e : Completed Op E α := ⟨thread, pending.operation, result, pending.began, system.clock⟩
  have hrun' : (sections e.operation).program.run s = (e.result, s) := hrun
  refine ⟨before ++ e :: since, explains_complete h hbegan hresult ?_ ?_ ?_ ?_⟩
  · exact (List.perm_middle.trans (List.perm_append_singleton e (before ++ since)).symm)
  · refine sequential_append.mpr ⟨s, hbefore, congrArg Prod.fst hrun', ?_⟩
    rw [hrun']
    exact hsince
  · obtain ⟨hbefore', hsince', hbetween⟩ := List.pairwise_append.mp h.realTime
    refine List.pairwise_append.mpr ⟨hbefore', List.pairwise_cons.mpr ⟨hlate, hsince'⟩, ?_⟩
    intro x hx y hy
    rcases List.mem_cons.mp hy with rfl | hy
    · exact h.began_le x (List.mem_append_left _ hx)
    · exact hbetween x hx y hy
  · intro began t hclock ht
    exact ht.insert hbefore hrun' hclock

/-- A step with which nothing is over is a question. -/
theorem acts_of_result_none {x : Sections S E α} (hsettled : x.Settled) (hactsLast : x.program.ActsLast)
    (hresult : (x.step store).1.result = none) : x.program.acts = false := by
  cases hacts : x.program.acts with
  | false => rfl
  | true =>
    obtain ⟨result, hdone⟩ := hactsLast.done_of_acts hacts store
    have hprogram := congrArg Prod.fst (Sections.program_step hsettled store)
    have hsome := (Sections.result_eq_some (Sections.settled_step hsettled store)).mpr (hprogram.trans hdone)
    cases hresult.symm.trans hsome

/-- **Step lemma.** A step that is fresh keeps the system linearizable. -/
theorem explains_step {action : Action Op} (hactsLast : ∀ operation, (sections operation).program.ActsLast)
    (h : Explains sections s₀ system order) (hfresh : Fresh sections system action)
    (hstep : system.step sections action = some system') : ∃ order', Explains sections s₀ system' order' := by
  obtain ⟨thread, operation, rfl, -, rfl⟩ | ⟨thread, pending, rfl, hpending, -, rfl⟩ := System.step_cases hstep
  · -- an operation that is called may be over at once
    have hsettled : (system.called sections operation).rest.Settled := Sections.settled_settle _
    have hprogram : (system.called sections operation).rest.program = (sections operation).program := Sections.program_settle _
    cases hresult : (system.called sections operation).rest.result with
    | none =>
      refine ⟨order, explains_advance h ⟨hsettled, ?_, Nat.le_refl _, nofun⟩ hresult⟩
      rw [hprogram]
      exact hactsLast operation
    | some result =>
      refine ⟨_, explains_append h (Nat.le_refl _) hresult ?_⟩
      show (sections operation).program.run system.store = (result, system.store)
      rw [← hprogram, (Sections.result_eq_some hsettled).mp hresult]
      rfl
  · have hsound := h.sound thread pending hpending
    have hsettled : (system.stepped pending).rest.Settled := Sections.settled_step hsound.settled _
    have hprogram := Sections.program_step hsound.settled system.store
    have hrest : (system.stepped pending).rest.program = (pending.rest.program.step system.store).1 := congrArg Prod.fst hprogram
    have hstore : (pending.rest.step system.store).2 = (pending.rest.program.step system.store).2 := congrArg Prod.snd hprogram
    cases hresult : (system.stepped pending).rest.result with
    | none =>
      have hsame : (pending.rest.step system.store).2 = system.store := by
        rw [hstore, StoreProgram.step_of_not_acts (acts_of_result_none hsound.settled hsound.actsLast hresult)]
      rw [hsame]
      refine ⟨order, explains_advance h ⟨hsettled, ?_, hsound.began_le, hsound.passes⟩ hresult⟩
      rw [hrest]
      exact hsound.actsLast.step _
    | some result =>
      have hdone : (pending.rest.program.step system.store).1 = .done result :=
        hrest.symm.trans ((Sections.result_eq_some hsettled).mp hresult)
      have hmoment := hfresh pending hpending result hresult
      cases hacts : pending.rest.program.acts with
      | true =>
        rw [hacts, if_pos rfl] at hmoment
        refine ⟨_, explains_append h hsound.began_le hresult ?_⟩
        show (sections pending.operation).program.run system.store = _
        rw [← StoreProgram.run_after pending.answered, hmoment, ← StoreProgram.run_step, hdone, hstore]
        rfl
      | false =>
        rw [hacts, if_neg Bool.false_ne_true] at hmoment
        obtain ⟨s, hs, hafter⟩ := hmoment
        rw [hstore, StoreProgram.step_of_not_acts hacts]
        have hbegan : (system.stepped pending).began ≤ system.clock := hsound.began_le
        refine explains_insert h hbegan hresult (hsound.passes s hs) ?_
        show (sections pending.operation).program.run s = _
        rw [← StoreProgram.run_after (pending.answered + 1), hafter]
        rfl

/-- **Runs of operations on one store are linearizable**, if every operation ends with a step that is fresh. -/
theorem linearizable_run {actions : List (Action Op)} (hactsLast : ∀ operation, (sections operation).program.ActsLast)
    (hrun : Transition.run (System.step sections) (.init s₀) actions = some system)
    (hfresh : Transition.Along (System.step sections) (Fresh sections) (.init s₀) actions) :
    Linearizable (fun operation => (sections operation).program) s₀ system := by
  have h : ∃ order, Explains sections s₀ system order := by
    refine Transition.along_run (P := fun system => ∃ order, Explains sections s₀ system order) ?_
      ⟨[], explains_init⟩ hrun hfresh
    rintro system action system' ⟨order, h⟩ hfresh hstep
    exact explains_step hactsLast h hfresh hstep
  obtain ⟨order, h⟩ := h
  exact ⟨order, h.toLinearizes⟩

end

/-! ## Locked operations -/

section

variable {Op S E α : Type} {sections : Op → Sections S E α} {s₀ : S} {system system' : System Op S E α}

end

end Interleaving
