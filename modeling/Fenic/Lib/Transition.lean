import Mathlib.Logic.Basic

/-!
# `Lib.Transition` — runs of a partial step function

A system is a partial step function `step : S → Act → Option S`; a run feeds it a list of actions and stops
being defined at the first action that is not enabled. Concurrency is interleaving: the actions of all parties
are in one list, in the order in which they take effect.

`invariant_run` packages the induction over runs. `Along Q` says that every step of a run satisfies `Q`, a
condition on the state before the step; `along_run` is the induction for properties that hold under it.
-/

namespace Transition

variable {S Act : Type*} (step : S → Act → Option S)

/-- The state after a list of actions, if all of them are enabled. -/
def run : S → List Act → Option S
  | s, [] => some s
  | s, a :: as => (step s a).bind (fun s' => run s' as)

/-- Every action of the list is taken in a state that satisfies `Q`. -/
def Along (Q : S → Act → Prop) : S → List Act → Prop
  | _, [] => True
  | s, a :: as => Q s a ∧ ∀ s', step s a = some s' → Along Q s' as

variable {step}

variable {s s' : S} {a : Act} {as : List Act}

theorem run_cons :
    run step s (a :: as) = some s' ↔ ∃ t, step s a = some t ∧ run step t as = some s' :=
  Option.bind_eq_some_iff

/-- Some run leads from the one state to the other. -/
def Reaches (step : S → Act → Option S) (s s' : S) : Prop := ∃ as, run step s as = some s'

theorem Reaches.refl (s : S) : Reaches step s s := ⟨[], rfl⟩

variable {t : S}

theorem Reaches.head (h : step s a = some t) (hrest : Reaches step t s') : Reaches step s s' := by
  obtain ⟨as, has⟩ := hrest
  exact ⟨a :: as, run_cons.mpr ⟨t, h, has⟩⟩

theorem Reaches.trans (h : Reaches step s t) (hrest : Reaches step t s') : Reaches step s s' := by
  obtain ⟨as, has⟩ := h
  induction as generalizing s with
  | nil =>
    cases has
    exact hrest
  | cons a as ih =>
    obtain ⟨u, hu, hrun⟩ := run_cons.mp has
    exact .head hu (ih hrun)

variable {Q : S → Act → Prop}

theorem along_cons (h : step s a = some t) :
    Along step Q s (a :: as) ↔ Q s a ∧ Along step Q t as := by
  constructor
  · rintro ⟨hq, hnext⟩
    exact ⟨hq, hnext t h⟩
  · rintro ⟨hq, hnext⟩
    refine ⟨hq, ?_⟩
    intro t' ht'
    rw [h] at ht'
    cases ht'
    exact hnext

/-- A condition that can be decided of one step can be decided of a run. -/
instance decidableAlong {Q : S → Act → Prop} [∀ s a, Decidable (Q s a)] : ∀ s as, Decidable (Along step Q s as)
  | _, [] => .isTrue trivial
  | s, a :: as =>
    match h : step s a with
    | none => decidable_of_iff (Q s a) ⟨fun hq => ⟨hq, fun s' hs' => absurd (h.symm.trans hs') nofun⟩, And.left⟩
    | some t =>
      have : Decidable (Along step Q t as) := decidableAlong t as
      decidable_of_iff (Q s a ∧ Along step Q t as) (along_cons h).symm

variable {P : S → Prop}

/-- **An invariant of one step is an invariant of every run.** -/
theorem invariant_run (hstep : ∀ s a s', P s → step s a = some s' → P s')
    (h : P s) (hrun : run step s as = some s') : P s' := by
  induction as generalizing s with
  | nil =>
    cases hrun
    exact h
  | cons a as ih =>
    obtain ⟨t, ht, hrest⟩ := run_cons.mp hrun
    exact ih (hstep s a t h ht) hrest

/-- **What the steps with `Q` keep holds after every run all of whose steps satisfy `Q`.** -/
theorem along_run
    (hstep : ∀ s a s', P s → Q s a → step s a = some s' → P s') (h : P s)
    (hrun : run step s as = some s') (halong : Along step Q s as) : P s' := by
  induction as generalizing s with
  | nil =>
    cases hrun
    exact h
  | cons a as ih =>
    obtain ⟨t, ht, hrest⟩ := run_cons.mp hrun
    obtain ⟨hq, hnext⟩ := (along_cons ht).mp halong
    exact ih (hstep s a t h hq ht) hrest hnext

/-- What the steps with `Q` keep gives every step with `Q` its other properties. -/
theorem along_of {R : S → Act → Prop} (hstep : ∀ s a s', P s → Q s a → step s a = some s' → P s')
    (hR : ∀ s a, P s → Q s a → R s a) (h : P s) (halong : Along step Q s as) :
    Along step R s as := by
  induction as generalizing s with
  | nil => trivial
  | cons a as ih =>
    obtain ⟨hq, hnext⟩ := halong
    exact ⟨hR s a h hq, fun t ht => ih (hstep s a t h hq ht) (hnext t ht)⟩

/-- **A run is no longer than a measure that every step decreases.** -/
theorem length_run_le {μ : S → Nat} (hP : ∀ s a s', P s → step s a = some s' → P s')
    (hμ : ∀ s a s', P s → step s a = some s' → μ s' < μ s) (h : P s)
    (hrun : run step s as = some s') : as.length + μ s' ≤ μ s := by
  induction as generalizing s with
  | nil =>
    cases hrun
    simp
  | cons a as ih =>
    obtain ⟨t, ht, hrest⟩ := run_cons.mp hrun
    have hlength := ih (hP s a t h ht) hrest
    have hlt := hμ s a t h ht
    rw [List.length_cons]
    omega

/-- **Under such a measure some run leads to a state without steps.** -/
theorem exists_halted {P : S → Prop} {μ : S → Nat} (hP : ∀ s a s', P s → step s a = some s' → P s')
    (hμ : ∀ s a s', P s → step s a = some s' → μ s' < μ s) {s : S} (h : P s) :
    ∃ s', Reaches step s s' ∧ ∀ a, step s' a = none := by
  by_cases hhalted : ∀ a, step s a = none
  · exact ⟨s, Reaches.refl s, hhalted⟩
  · obtain ⟨a, ha⟩ := not_forall.mp hhalted
    obtain ⟨t, ht⟩ := Option.ne_none_iff_exists'.mp ha
    have hlt := hμ s a t h ht
    obtain ⟨s', hreaches, hnone⟩ := exists_halted hP hμ (hP s a t h ht)
    exact ⟨s', .head ht hreaches, hnone⟩
termination_by μ s

/-- If, under an invariant `P`, one step keeps `G` exactly when it satisfies `Q`, and no step repairs `G`,
    then a run from a state with `G` ends in one exactly when all its steps satisfy `Q`. -/
theorem along_iff {G : S → Prop}
    (hP : ∀ s a s', P s → step s a = some s' → P s')
    (hG : ∀ s a s', P s → step s a = some s' → (G s' ↔ G s ∧ Q s a))
    (h : P s) (hrun : run step s as = some s') : G s' ↔ G s ∧ Along step Q s as := by
  induction as generalizing s with
  | nil =>
    cases hrun
    simp [Along]
  | cons a as ih =>
    obtain ⟨t, ht, hrest⟩ := run_cons.mp hrun
    rw [ih (hP s a t h ht) hrest, hG s a t h ht, along_cons ht, and_assoc]

end Transition
