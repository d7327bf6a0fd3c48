import Mathlib.Logic.Basic

/-!
# `Lib.Term` — terms and what they mean under every interpretation

A term is a symbol over a list of terms. An interpretation says what a symbol does with the meanings of its arguments,
where a meaning is a function of an environment; so a symbol may evaluate an argument in any environment it likes, or
not at all.

`eval_eq_iff` is the completeness of the term interpretation: two terms mean the same under every interpretation
exactly when they are the same term.
-/

/-- A symbol applied to terms. -/
inductive Term (F : Type) where
  | app (symbol : F) (args : List (Term F))

namespace Term

variable {F Env Value : Type}

/-- What each symbol does with the meanings of its arguments. -/
abbrev Interpretation (F Env Value : Type) :=
  F → List (Env → Value) → Env → Value

mutual

/-- The meaning of a term. -/
def eval (interp : Interpretation F Env Value) : Term F → Env → Value
  | .app symbol args => interp symbol (evalList interp args)

def evalList (interp : Interpretation F Env Value) : List (Term F) → List (Env → Value)
  | [] => []
  | arg :: args => eval interp arg :: evalList interp args

end

/-- The interpretation in which a term means itself. -/
def itself : Interpretation F Unit (Term F) :=
  fun symbol args _ => .app symbol (args.map fun arg => arg ())

mutual

theorem eval_itself : ∀ t : Term F, eval itself t () = t
  | .app symbol args => by
    show Term.app symbol ((evalList itself args).map fun arg => arg ()) = .app symbol args
    rw [evalList_itself args]

theorem evalList_itself : ∀ ts : List (Term F), (evalList itself ts).map (fun t => t ()) = ts
  | [] => rfl
  | t :: ts => by
    show eval itself t () :: (evalList itself ts).map (fun t => t ()) = t :: ts
    rw [eval_itself t, evalList_itself ts]

end

/-- **Two terms mean the same under every interpretation exactly when they are the same.** -/
theorem eval_eq_iff {s t : Term F} :
    (∀ (Env Value : Type) (interp : Interpretation F Env Value), eval interp s = eval interp t) ↔ s = t := by
  constructor
  · intro h
    have hitself := congrFun (h Unit (Term F) itself) ()
    rwa [eval_itself, eval_itself] at hitself
  · rintro rfl Env Value interp
    rfl

end Term
