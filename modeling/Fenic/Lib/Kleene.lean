import Mathlib.Data.List.Basic

/-!
# `Lib.Kleene` — strong three-valued logic and row selection

A *truth value* is `some true`, `some false` or `none` (unknown). The connectives are Kleene's strong ones,
as in SQL. A selection keeps the rows on which a predicate is `some true`: an unknown row is dropped like a
false one, so a selection forgets the difference, while a negation under it does not.

Selections compose: a conjunction selects like two selections in a row, and a chain of selections depends
only on the *multiset* of its predicates. These two facts are what query rewriting rests on.
-/

namespace Kleene

/-- A three-valued truth value; `none` is unknown. -/
abbrev Truth := Option Bool

/-! ## Connectives -/

/-- Negation; unknown stays unknown. -/
def not : Truth → Truth
  | some b => some !b
  | none => none

/-- Conjunction; one false operand decides. -/
def and : Truth → Truth → Truth
  | some false, _ => some false
  | _, some false => some false
  | some true, some true => some true
  | _, _ => none

/-- Disjunction; one true operand decides. -/
def or : Truth → Truth → Truth
  | some true, _ => some true
  | _, some true => some true
  | some false, some false => some false
  | _, _ => none

@[simp] theorem not_not (a : Truth) : not (not a) = a := by
  rcases a with _ | _ | _ <;> rfl

/-- De Morgan: the direction that turns a negated disjunction into a conjunction. -/
theorem not_or (a b : Truth) : not (or a b) = and (not a) (not b) := by
  rcases a with _ | _ | _ <;> rcases b with _ | _ | _ <;> rfl

theorem and_eq_true_iff {a b : Truth} : and a b = some true ↔ a = some true ∧ b = some true := by
  rcases a with _ | _ | _ <;> rcases b with _ | _ | _ <;> simp [and]

/-! ## Selections -/

variable {α : Type*}

/-- The rows on which `p` is definitely true, in order. -/
def select (p : α → Truth) (rows : List α) : List α :=
  rows.filter (fun r => decide (p r = some true))

theorem select_congr {p q : α → Truth} (h : ∀ r, p r = q r) (rows : List α) :
    select p rows = select q rows := by
  have hpq : p = q := funext h
  rw [hpq]

/-- A conjunction selects like its operands one after the other, in either order. -/
theorem select_and (p q : α → Truth) (rows : List α) :
    select (fun r => and (p r) (q r)) rows = select p (select q rows) := by
  unfold select
  rw [List.filter_filter]
  apply List.filter_congr
  intro r _
  simp [and_eq_true_iff]

theorem select_comm (p q : α → Truth) (rows : List α) :
    select p (select q rows) = select q (select p rows) := by
  unfold select
  rw [List.filter_filter, List.filter_filter]
  apply List.filter_congr
  intro r _
  exact Bool.and_comm _ _

/-! ## Chains of selections -/

/-- Select by each predicate in turn, the head first. -/
def selectAll (ps : List (α → Truth)) (rows : List α) : List α :=
  ps.foldl (fun acc p => select p acc) rows

@[simp] theorem selectAll_nil (rows : List α) : selectAll [] rows = rows := rfl

@[simp] theorem selectAll_cons (p : α → Truth) (ps : List (α → Truth)) (rows : List α) :
    selectAll (p :: ps) rows = selectAll ps (select p rows) := rfl

theorem selectAll_append (ps qs : List (α → Truth)) (rows : List α) :
    selectAll (ps ++ qs) rows = selectAll qs (selectAll ps rows) := by
  simp [selectAll]

theorem mem_of_mem_selectAll {ps : List (α → Truth)} {rows : List α} {r : α} (h : r ∈ selectAll ps rows) : r ∈ rows := by
  induction ps generalizing rows with
  | nil => exact h
  | cons p ps ih => exact (List.mem_filter.mp (ih h)).1

/-- **A chain depends only on the multiset of its predicates**: reordering conjuncts is sound, and keeps
    the order of the rows. -/
theorem selectAll_perm {ps qs : List (α → Truth)} (h : ps.Perm qs) (rows : List α) :
    selectAll ps rows = selectAll qs rows := by
  induction h generalizing rows with
  | nil => rfl
  | cons p _ ih => rw [selectAll_cons, selectAll_cons, ih]
  | swap p q ps => simp only [selectAll_cons, select_comm p q]
  | trans _ _ ih₁ ih₂ => rw [ih₁, ih₂]

end Kleene
