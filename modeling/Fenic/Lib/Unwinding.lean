import Mathlib.Data.List.Basic

/-!
# `Lib.Unwinding` — what one party sees of a shared system

Several parties act on one state; every action has an owner and gives a result. A party is not interfered with
when the results of its own actions are those of the run in which only its actions are taken.

The two unwinding conditions are about one step and a relation between the state of the full run and the state of
the reduced one: an own action keeps the relation and gives the same result, a foreign action keeps the relation
with the reduced run standing still. Both may depend on a condition on the two states before the step, which is
then required along the run.
-/

namespace Unwinding

variable {S A O D : Type*} [DecidableEq D] (step : S → A → S × O) (owner : A → D)

/-- The state after a list of actions. -/
def run : S → List A → S
  | s, [] => s
  | s, a :: as => run (step s a).1 as

/-- The actions of a run with their results. -/
def results : S → List A → List (A × O)
  | _, [] => []
  | s, a :: as => (a, (step s a).2) :: results (step s a).1 as

/-- The actions of a party. -/
def own (d : D) (as : List A) : List A :=
  as.filter (fun a => owner a = d)

/-- The results that a party sees. -/
def seen (d : D) (rs : List (A × O)) : List (A × O) :=
  rs.filter (fun r => owner r.1 = d)

/-- The condition holds at every step, for the states of the full and of the reduced run. -/
def Along (d : D) (Q : S → S → A → Prop) : S → S → List A → Prop
  | _, _, [] => True
  | s, t, a :: as => Q s t a ∧ Along d Q (step s a).1 (if owner a = d then (step t a).1 else t) as

variable {step owner}

variable {d : D}

theorem own_cons_self {a : A} (h : owner a = d) (as : List A) : own owner d (a :: as) = a :: own owner d as :=
  List.filter_cons_of_pos (decide_eq_true h)

theorem own_cons_other {a : A} (h : owner a ≠ d) (as : List A) : own owner d (a :: as) = own owner d as :=
  List.filter_cons_of_neg (by simpa using h)

/-- **Under the unwinding conditions, a run and its reduction stay related and give the party the same results.** -/
theorem run_own (R : S → S → Prop) {Q : S → S → A → Prop}
    (hown : ∀ s t a, owner a = d → Q s t a → R s t → R (step s a).1 (step t a).1 ∧ (step s a).2 = (step t a).2)
    (hforeign : ∀ s t a, owner a ≠ d → Q s t a → R s t → R (step s a).1 t) {s t : S} {as : List A} (hR : R s t)
    (halong : Along step owner d Q s t as) :
    R (run step s as) (run step t (own owner d as)) ∧
      seen owner d (results step s as) = results step t (own owner d as) := by
  induction as generalizing s t with
  | nil => exact ⟨hR, rfl⟩
  | cons a as ih =>
    obtain ⟨hQ, hrest⟩ := halong
    by_cases ha : owner a = d
    · rw [if_pos ha] at hrest
      obtain ⟨hnext, hresult⟩ := hown s t a ha hQ hR
      obtain ⟨hfinal, hseen⟩ := ih hnext hrest
      have hhead : seen owner d (results step s (a :: as)) =
          (a, (step s a).2) :: seen owner d (results step (step s a).1 as) :=
        List.filter_cons_of_pos (decide_eq_true ha)
      rw [own_cons_self ha, hhead, hseen, hresult]
      exact ⟨hfinal, rfl⟩
    · rw [if_neg ha] at hrest
      have hnext := hforeign s t a ha hQ hR
      obtain ⟨hfinal, hseen⟩ := ih hnext hrest
      have hhead : seen owner d (results step s (a :: as)) = seen owner d (results step (step s a).1 as) :=
        List.filter_cons_of_neg (by simpa using ha)
      rw [own_cons_other ha, hhead, hseen]
      exact ⟨hfinal, rfl⟩

end Unwinding
