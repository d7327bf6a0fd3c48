import Mathlib

/-!
# `Metrics.QueryMetrics` — where the model usage of a query goes

An operator that ends reads the counters of all model clients and resets them; a query that ends records the sum of
what its operators have read. An exception in an operator ends the query too: what the operators before it have read is
lost, and what the failing one has spent stays in the counters for the next operator that ends, of whatever query.
-/

namespace Fenic

namespace Metrics

/-- A field of `LMMetrics` or of `RMMetrics` that counts. The costs are left out: a sum of floats depends on its order. -/
inductive Counter where
  | numUncachedInputTokens
  | numCachedInputTokens
  | numOutputTokens
  | numRequests
  | numReservedOutputTokens
  | rmNumInputTokens
  | rmNumRequests

/-- What `get_model_metrics` returns. Metrics are added field by field. -/
abbrev Usage := Counter → Int

/-- The `_metrics` of each client. -/
abbrev ModelRegistry (n : Nat) := Fin n → Usage

/-- What the requests of an operator add to the metrics of the clients. -/
abbrev Spending (n : Nat) := List (Fin n × Usage)

variable {DF Exc : Type} {n : Nat}

/-- `+=` over all items, from the metrics without usage. -/
def total (items : List Usage) : Usage := items.foldl (· + ·) 0

def getModelMetrics (registry : ModelRegistry n) : Usage := total (List.ofFn registry)

def resetModelMetrics : ModelRegistry n := 0

def spend (registry : ModelRegistry n) (spending : Spending n) : ModelRegistry n :=
  spending.foldl (fun registry entry => registry + Pi.single entry.1 entry.2) registry

/-- An operator computes a frame or raises; it has spent something in both cases. -/
inductive PhysicalPlan (DF Exc : Type) (n : Nat) where
  | node (executeNode : List DF → Except Exc DF × Spending n) (children : List (PhysicalPlan DF Exc n))

mutual

/-- `PhysicalPlan.execute`, with `total_lm_metrics` and `total_rm_metrics`. -/
def execute : PhysicalPlan DF Exc n → ModelRegistry n → Except Exc (DF × Usage) × ModelRegistry n
  | .node executeNode children, registry =>
    match executeChildren children registry with
    | (.error e, registry) => (.error e, registry)
    | (.ok outputs, registry) =>
      match executeNode (outputs.map Prod.fst) with
      | (.error e, spending) => (.error e, spend registry spending)
      | (.ok resultDf, spending) =>
        (.ok (resultDf, total (outputs.map Prod.snd) + getModelMetrics (spend registry spending)), resetModelMetrics)

def executeChildren : List (PhysicalPlan DF Exc n) → ModelRegistry n → Except Exc (List (DF × Usage)) × ModelRegistry n
  | [], registry => (.ok [], registry)
  | child :: children, registry =>
    match execute child registry with
    | (.error e, registry) => (.error e, registry)
    | (.ok output, registry) =>
      match executeChildren children registry with
      | (.error e, registry) => (.error e, registry)
      | (.ok outputs, registry) => (.ok (output :: outputs), registry)

end

/-- `_execute_query` for one plan after another: the metrics that the catalog gets, and the counters afterwards. -/
def executeQueries : List (PhysicalPlan DF Exc n) → ModelRegistry n → List Usage × ModelRegistry n
  | [], registry => ([], registry)
  | plan :: plans, registry =>
    match execute plan registry with
    | (.error _, registry) => executeQueries plans registry
    | (.ok (_, metrics), registry) =>
      let rest := executeQueries plans registry
      (metrics :: rest.1, rest.2)

/-! ## The ledger -/

/-- What the operators that end spend, one after another, and then the result or what the failing one has spent. -/
abbrev Course (Exc α : Type) (n : Nat) := List (Spending n) × Except (Exc × Spending n) α

mutual

def run : PhysicalPlan DF Exc n → Course Exc DF n
  | .node executeNode children =>
    match runChildren children with
    | (ended, .error failure) => (ended, .error failure)
    | (ended, .ok dfs) =>
      match executeNode dfs with
      | (.error e, spending) => (ended, .error (e, spending))
      | (.ok df, spending) => (ended ++ [spending], .ok df)

def runChildren : List (PhysicalPlan DF Exc n) → Course Exc (List DF) n
  | [] => ([], .ok [])
  | child :: children =>
    match run child with
    | (ended, .error failure) => (ended, .error failure)
    | (ended, .ok df) =>
      match runChildren children with
      | (ended', .error failure) => (ended ++ ended', .error failure)
      | (ended', .ok dfs) => (ended ++ ended', .ok (df :: dfs))

end

/-- Where the usage of a session is. -/
structure Ledger where
  recorded : Usage
  lost : Usage
  left : Usage

def spent (spending : Spending n) : Usage := (spending.map Prod.snd).sum

/-- A query in the ledger. -/
def Ledger.query (ledger : Ledger) (plan : PhysicalPlan DF Exc n) : Ledger :=
  let ended := ((run plan).1.map spent).sum
  match run plan with
  | (_, .ok _) => ⟨ledger.recorded + (ledger.left + ended), ledger.lost, 0⟩
  | ([], .error (_, spending)) => { ledger with left := ledger.left + spent spending }
  | (_, .error (_, spending)) => ⟨ledger.recorded, ledger.lost + (ledger.left + ended), spent spending⟩

/-- All that a query spends. -/
def spentBy (plan : PhysicalPlan DF Exc n) : Usage :=
  ((run plan).1.map spent).sum +
    match (run plan).2 with
    | .ok _ => 0
    | .error (_, spending) => spent spending

theorem getModelMetrics_eq_sum (registry : ModelRegistry n) : getModelMetrics registry = ∑ i, registry i := by
  rw [getModelMetrics, total, ← List.sum_eq_foldl, List.sum_ofFn]

theorem getModelMetrics_reset : getModelMetrics (resetModelMetrics : ModelRegistry n) = 0 := by
  rw [getModelMetrics_eq_sum]
  exact Finset.sum_const_zero

theorem getModelMetrics_spend (registry : ModelRegistry n) (spending : Spending n) :
    getModelMetrics (spend registry spending) = getModelMetrics registry + spent spending := by
  induction spending generalizing registry with
  | nil => exact (add_zero _).symm
  | cons entry spending ih =>
    refine (ih _).trans ?_
    have hentry : ∑ i, (Pi.single entry.1 entry.2 : ModelRegistry n) i = entry.2 := by simp
    rw [getModelMetrics_eq_sum, getModelMetrics_eq_sum, spent, spent, List.map_cons, List.sum_cons, ← add_assoc]
    congr 1
    exact Finset.sum_add_distrib.trans (congrArg _ hentry)

/-- How an execution that starts with `start` in the counters, and what it leaves there, compare with what a plan spends. -/
inductive Accounts {α β : Type} (f : α → β) (u : α → Usage) (start : Usage) :
    Except Exc α → Usage → Course Exc β n → Prop where
  | ok {a : α} {left : Usage} {ended : List (Spending n)} (hleft : left = if ended = [] then start else 0)
      (husage : u a + left = start + (ended.map spent).sum) :
      Accounts f u start (.ok a) left (ended, .ok (f a))
  | error {e : Exc} {left : Usage} {ended : List (Spending n)} {spending : Spending n}
      (hleft : left = (if ended = [] then start else 0) + spent spending) :
      Accounts f u start (.error e) left (ended, .error (e, spending))

theorem ended_ne_nil {plan : PhysicalPlan DF Exc n} {ended : List (Spending n)} {df : DF}
    (h : run plan = (ended, .ok df)) : ended ≠ [] := by
  obtain ⟨executeNode, children⟩ := plan
  rw [run] at h
  split at h
  · cases h
  · split at h <;> cases h
    exact List.append_ne_nil_of_right_ne_nil _ (List.cons_ne_nil _ _)

mutual

theorem execute_accounts : ∀ (plan : PhysicalPlan DF Exc n) (registry : ModelRegistry n),
    Accounts Prod.fst Prod.snd (getModelMetrics registry) (execute plan registry).1
      (getModelMetrics (execute plan registry).2) (run plan)
  | .node executeNode children, registry => by
    have ih := executeChildren_accounts children registry
    rw [execute, run]
    generalize executeChildren children registry = executed at ih ⊢
    generalize runChildren children = ran at ih ⊢
    obtain ⟨result, registry'⟩ := executed
    dsimp only at ih ⊢
    generalize hread : getModelMetrics registry' = left at ih
    cases ih with
    | error hleft => exact .error (hread.trans hleft)
    | @ok outputs _ ended hleft husage =>
      dsimp only
      rcases executeNode (outputs.map Prod.fst) with ⟨e | df, spending⟩
      · refine .error ?_
        rw [getModelMetrics_spend, hread, hleft]
      · refine .ok (f := Prod.fst) (getModelMetrics_reset.trans (if_neg (by simp)).symm) ?_
        dsimp only
        rw [getModelMetrics_reset, add_zero, getModelMetrics_spend, hread, total, ← List.sum_eq_foldl, ← add_assoc, husage,
          List.map_append, List.sum_append, List.map_singleton, List.sum_singleton, add_assoc]

theorem executeChildren_accounts : ∀ (children : List (PhysicalPlan DF Exc n)) (registry : ModelRegistry n),
    Accounts (List.map Prod.fst) (fun outputs => (outputs.map Prod.snd).sum) (getModelMetrics registry)
      (executeChildren children registry).1 (getModelMetrics (executeChildren children registry).2) (runChildren children)
  | [], registry => by
    rw [executeChildren, runChildren]
    exact .ok (f := List.map Prod.fst) (a := []) (if_pos rfl).symm (add_comm _ _)
  | child :: children, registry => by
    have hchild := execute_accounts child registry
    have hne := @ended_ne_nil DF Exc n child
    rw [executeChildren, runChildren]
    generalize execute child registry = executed at hchild ⊢
    obtain ⟨result, registry'⟩ := executed
    have ih := executeChildren_accounts children registry'
    dsimp only at hchild ⊢
    generalize hread : getModelMetrics registry' = left at hchild ih
    generalize run child = ran at hchild hne ⊢
    cases hchild with
    | error hleft => exact .error (hread.trans hleft)
    | @ok output _ ended hleft husage =>
      have hended := hne rfl
      rw [if_neg hended] at hleft
      subst hleft
      dsimp only
      generalize executeChildren children registry' = executed at ih ⊢
      generalize runChildren children = ran at ih ⊢
      obtain ⟨result, registry''⟩ := executed
      dsimp only at ih ⊢
      generalize hread' : getModelMetrics registry'' = left at ih
      cases ih with
      | error hleft =>
        refine .error ?_
        rw [hread', hleft, if_neg (List.append_ne_nil_of_left_ne_nil hended _), ite_self]
      | ok hleft husage' =>
        refine .ok (f := List.map Prod.fst) (a := output :: _) ?_ ?_
        · rw [hread', hleft, if_neg (List.append_ne_nil_of_left_ne_nil hended _), ite_self]
        · rw [add_zero] at husage
          rw [zero_add] at husage'
          rw [hread', List.map_cons, List.sum_cons, husage, add_assoc, husage', List.map_append, List.sum_append, add_assoc]

end

/-- What a query does to the ledger. -/
theorem execute_query (ledger : Ledger) (plan : PhysicalPlan DF Exc n) (registry : ModelRegistry n)
    (hleft : ledger.left = getModelMetrics registry) :
    (ledger.query plan).left = getModelMetrics (execute plan registry).2 ∧
      (ledger.query plan).recorded = ledger.recorded +
        match (execute plan registry).1 with
        | .error _ => 0
        | .ok (_, metrics) => metrics := by
  have haccounts := execute_accounts plan registry
  have hne := @ended_ne_nil DF Exc n plan
  rw [Ledger.query, hleft]
  generalize (execute plan registry).1 = result at haccounts ⊢
  generalize getModelMetrics (execute plan registry).2 = left at haccounts ⊢
  generalize run plan = ran at haccounts hne ⊢
  cases haccounts with
  | @ok output _ ended hleft' husage =>
    rw [if_neg (hne rfl)] at hleft'
    rw [hleft', add_zero] at husage
    exact ⟨hleft'.symm, congrArg (ledger.recorded + ·) husage.symm⟩
  | @error e _ ended spending hleft' =>
    cases ended with
    | nil => exact ⟨hleft'.symm, (add_zero _).symm⟩
    | cons first rest => exact ⟨(hleft'.trans (zero_add _)).symm, (add_zero _).symm⟩

theorem query_balance (ledger : Ledger) (plan : PhysicalPlan DF Exc n) :
    (ledger.query plan).recorded + (ledger.query plan).lost + (ledger.query plan).left =
      ledger.recorded + ledger.lost + ledger.left + spentBy plan := by
  rw [Ledger.query, spentBy]
  rcases run plan with ⟨_ | ⟨first, rest⟩, ⟨e, spending⟩ | df⟩
  · simp only [List.map_nil, List.sum_nil]
    abel
  all_goals
    dsimp only
    abel

end Metrics

end Fenic
