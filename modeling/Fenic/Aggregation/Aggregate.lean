import Fenic.Lib.Rows

/-!
# `Aggregation.Aggregate` — aggregations

`ExprConverter` turns every aggregate into a kernel of the engine, and `AggregateExec` groups the rows and applies them to each
group. An aggregation without keys groups by a constant under a name of its own.

What the kernels do with values none of which is null stays open (`Kernels`). An expression that reads no column is one value
to the engine, however many rows there are; `CountExpr` alone looks for it.

Over columns, every kernel is applied to the right values, in groups of nulls and of duplicates too; only `first` takes the
first value as it is (`AggregateExpr.convert_eq_iff`). A constant stands for one value only, which some aggregates do not
notice. Without keys, there is no group in an empty frame.

## Contents
- **Expressions.** `Operand` and `AggregateExpr`.
- **Conversion.** `AggregateExpr.convert`, a handler for each aggregate.
- **Execution.** `Aggregate.executeNode`.
- **Meaning.** `AggregateExpr.meaning` and `Aggregate.IsDocumented`.
-/

namespace Fenic

namespace Aggregation

variable {R V : Type}

/-! ## Expressions -/

/-- The operand of an aggregate over rows: computed from each row, or one value for all. -/
inductive Operand (R V : Type) where
  | perRow (eval : R → Option V)
  | constant (isLiteralExpr : Bool) (value : Option V)

namespace Operand

def isLiteralExpr : Operand R V → Bool
  | perRow _ => false
  | constant isLiteralExpr _ => isLiteralExpr

def isConstant : Operand R V → Bool
  | perRow _ => false
  | constant _ _ => true

/-- The value of a constant. -/
def constantValue : Operand R V → Option V
  | perRow _ => none
  | constant _ value => value

/-- The value for a row. -/
def eval : Operand R V → R → Option V
  | perRow eval, r => eval r
  | constant _ value, _ => value

/-- The values that the engine has of it in a group. -/
def values (group : List R) : Operand R V → List (Option V)
  | perRow eval => group.map eval
  | constant _ value => [value]

end Operand

/-- What the engine computes from values none of which is null. -/
structure Kernels (V : Type) where
  sum : List V → Option V
  mean : List V → Option V
  min : List V → Option V
  max : List V → Option V
  std : List V → Option V
  /-- `np.mean(filtered, axis=0)`. -/
  npMean : List V → V

/-- An aggregate that was built: `collect_list` refuses literals, `count_distinct` no columns. -/
inductive AggregateExpr (R V : Type) where
  | sumExpr (expr : Operand R V)
  | sumDistinctExpr (expr : Operand R V)
  | avgExpr (inputIsEmbedding : Bool) (expr : Operand R V)
  | minExpr (expr : Operand R V)
  | maxExpr (expr : Operand R V)
  | countExpr (expr : Operand R V)
  | countDistinctExpr (exprs : List (Operand R V)) (nonempty : exprs ≠ [])
  | listExpr (expr : Operand R V) (notLiteral : expr.isLiteralExpr = false)
  | firstExpr (expr : Operand R V)
  | stdDevExpr (expr : Operand R V)

/-- A cell of an aggregate. -/
inductive Cell (V : Type) where
  | value (v : Option V)
  | number (n : Nat)
  | list (items : List (Option V))

/-! ## Conversion -/

/-- `drop_nulls`. -/
def dropNulls (values : List (Option V)) : List V := values.filterMap id

/-- `embedding_avg`, for one group. -/
def embeddingAvg (kernels : Kernels V) (embList : List (Option V)) : Option V :=
  let filtered := dropNulls embList
  if filtered.isEmpty then none else some (kernels.npMean filtered)

/-- `_convert_avg_expr`. -/
def convertAvgExpr (kernels : Kernels V) (inputIsEmbedding : Bool) (expr : Operand R V) (group : List R) : Option V :=
  if inputIsEmbedding then embeddingAvg kernels (expr.values group) else kernels.mean (dropNulls (expr.values group))

section

variable [DecidableEq V]

/-- `n_unique`. -/
def nUnique {α : Type} [DecidableEq α] (values : List α) : Nat := (Rows.uniqueBy id values).length

/-- The rows of `pl.struct`: one if no expression reads a column. -/
def structRows (exprs : List (Operand R V)) (group : List R) : List (List (Option V)) :=
  if exprs.all Operand.isConstant then [exprs.map Operand.constantValue]
  else group.map fun r => exprs.map fun expr => expr.eval r

/-- `_convert_count_distinct_expr`. -/
def convertCountDistinctExpr (exprs : List (Operand R V)) (group : List R) : Nat :=
  match exprs with
  | [expr] => nUnique (dropNulls (expr.values group))
  | exprs => nUnique ((structRows exprs group).filter fun row => !row.any Option.isNone)

/-- `_convert_aggregate_expr`, with the values that it has in a group. -/
def AggregateExpr.convert (kernels : Kernels V) (group : List R) : AggregateExpr R V → Cell V
  | .avgExpr inputIsEmbedding expr => .value (convertAvgExpr kernels inputIsEmbedding expr group)
  | .sumExpr expr => .value (kernels.sum (dropNulls (expr.values group)))
  | .sumDistinctExpr expr => .value (kernels.sum (dropNulls (Rows.uniqueBy id (expr.values group))))
  | .minExpr expr => .value (kernels.min (dropNulls (expr.values group)))
  | .maxExpr expr => .value (kernels.max (dropNulls (expr.values group)))
  | .countExpr expr => .number (if expr.isLiteralExpr then group.length else (dropNulls (expr.values group)).length)
  | .countDistinctExpr exprs _ => .number (convertCountDistinctExpr exprs group)
  -- the values of a group are a list, but one value is no list
  | .listExpr (.perRow eval) _ => .list (group.map eval)
  | .listExpr (.constant _ value) _ => .value value
  | .firstExpr expr => .value (expr.values group).head?.join
  | .stdDevExpr expr => .value (kernels.std (dropNulls (expr.values group)))

/-! ## Execution -/

/-- An aggregation that was planned: all its columns have different names. -/
structure Aggregate (R V : Type) where
  groupExprs : List (String × Operand R V)
  aggExprs : List (String × AggregateExpr R V)
  nodup : (groupExprs.map Prod.fst ++ aggExprs.map Prod.fst).Nodup

/-- A result: for each row, its key and the cells of the aggregates. -/
structure Grouped (κ V : Type) where
  columns : List String
  rows : List (κ × List (Cell V))

/-- `df.group_by(keys).agg(aggExprs)`: one row for each key. The engine allows no two columns of one name. -/
def groupByAgg {κ : Type} [DecidableEq κ] (kernels : Kernels V) (keyNames : List String) (key : R → κ)
    (aggExprs : List (String × AggregateExpr R V)) (df : List R) : Option (Grouped κ V) :=
  if (keyNames ++ aggExprs.map Prod.fst).Nodup then
    some ⟨keyNames ++ aggExprs.map Prod.fst, (Rows.groupsBy key df).map fun (key, group) =>
      (key, aggExprs.map fun aggExpr => aggExpr.2.convert kernels group)⟩
  else none

def dummyGroupId : String := "_dummy_group_id"

namespace Aggregate

variable (kernels : Kernels V) (aggregate : Aggregate R V)

/-- The key of a row. -/
def key (r : R) : List (Option V) := aggregate.groupExprs.map fun groupExpr => groupExpr.2.eval r

/-- `AggregateExec.execute_node`. -/
def executeNode (childDf : List R) : Option (Grouped (List (Option V)) V) :=
  if aggregate.groupExprs = [] then
    (groupByAgg kernels [dummyGroupId] (fun _ => 1) aggregate.aggExprs childDf).map fun df =>
      ⟨df.columns.filter (· ≠ dummyGroupId), df.rows.map fun row => ([], row.2)⟩
  else groupByAgg kernels (aggregate.groupExprs.map Prod.fst) aggregate.key aggregate.aggExprs childDf

end Aggregate

/-! ## Meaning -/

/-- What an aggregate is to compute over the rows of a group. -/
def AggregateExpr.meaning (kernels : Kernels V) (group : List R) : AggregateExpr R V → Cell V
  | .sumExpr expr => .value (kernels.sum (dropNulls (group.map expr.eval)))
  | .sumDistinctExpr expr => .value (kernels.sum (Rows.uniqueBy id (dropNulls (group.map expr.eval))))
  | .avgExpr inputIsEmbedding expr => .value (
      if inputIsEmbedding then
        if dropNulls (group.map expr.eval) = [] then none else some (kernels.npMean (dropNulls (group.map expr.eval)))
      else kernels.mean (dropNulls (group.map expr.eval)))
  | .minExpr expr => .value (kernels.min (dropNulls (group.map expr.eval)))
  | .maxExpr expr => .value (kernels.max (dropNulls (group.map expr.eval)))
  | .countExpr expr => .number (dropNulls (group.map expr.eval)).length
  | .countDistinctExpr exprs _ =>
    .number (nUnique ((group.map fun r => exprs.map fun expr => expr.eval r).filter fun row => !row.any Option.isNone))
  | .listExpr expr _ => .list (group.map expr.eval)
  | .firstExpr expr => .value (dropNulls (group.map expr.eval)).head?
  | .stdDevExpr expr => .value (kernels.std (dropNulls (group.map expr.eval)))

/-- One row for each key, or one for all rows if there are no keys, with what the aggregates are to compute. -/
structure Aggregate.IsDocumented (kernels : Kernels V) (aggregate : Aggregate R V) (childDf : List R)
    (result : Grouped (List (Option V)) V) : Prop where
  columns : result.columns = aggregate.groupExprs.map Prod.fst ++ aggregate.aggExprs.map Prod.fst
  keys : if aggregate.groupExprs = [] then result.rows.map Prod.fst = [[]]
    else (result.rows.map Prod.fst).Nodup ∧ ∀ key, key ∈ result.rows.map Prod.fst ↔ key ∈ childDf.map aggregate.key
  cells : ∀ row ∈ result.rows, row.2 = aggregate.aggExprs.map fun aggExpr =>
    aggExpr.2.meaning kernels (childDf.filter fun r => aggregate.key r = row.1)

end

/-! ## When an aggregation computes what it is to -/

/-! ## Distinct values -/

section Distinct

variable {α β : Type} [DecidableEq α] [DecidableEq β]

theorem uniqueBy_map {f : α → β} (hf : Function.Injective f) (xs : List α) :
    Rows.uniqueBy id (xs.map f) = (Rows.uniqueBy id xs).map f := by
  induction xs with
  | nil => rfl
  | cons x xs ih =>
    rw [List.map_cons, Rows.uniqueBy, Rows.uniqueBy, ih, List.map_cons, List.filter_map]
    congr 2
    apply List.filter_congr
    intro y _
    simp [hf.eq_iff]

theorem uniqueBy_replicate {n : Nat} (hn : n ≠ 0) (x : α) : Rows.uniqueBy id (List.replicate n x) = [x] := by
  induction n with
  | zero => exact absurd rfl hn
  | succ n ih =>
    rw [List.replicate_succ, Rows.uniqueBy]
    by_cases h : n = 0
    · subst h
      rfl
    · rw [ih h]
      simp

theorem nUnique_map {f : α → β} (hf : Function.Injective f) (xs : List α) : nUnique (xs.map f) = nUnique xs := by
  rw [nUnique, uniqueBy_map hf, List.length_map, nUnique]

/-- Copies of one value count once. -/
theorem nUnique_filter_replicate {n : Nat} (hn : n ≠ 0) (p : α → Bool) (x : α) :
    nUnique ((List.replicate n x).filter p) = nUnique ([x].filter p) := by
  cases hp : p x with
  | false => simp [hp]
  | true => simp [hp, nUnique, uniqueBy_replicate hn, Rows.uniqueBy]

end Distinct

/-! ## Values that are not null -/

@[simp] theorem dropNulls_none (values : List (Option V)) : dropNulls (none :: values) = dropNulls values := rfl

@[simp] theorem dropNulls_some (v : V) (values : List (Option V)) : dropNulls (some v :: values) = v :: dropNulls values := rfl

@[simp] theorem dropNulls_nil : dropNulls ([] : List (Option V)) = [] := rfl

@[simp] theorem dropNulls_replicate_none (n : Nat) : dropNulls (List.replicate n (none : Option V)) = [] := by
  induction n with
  | zero => rfl
  | succ n ih => exact ih

@[simp] theorem dropNulls_replicate_some (n : Nat) (v : V) : dropNulls (List.replicate n (some v)) = List.replicate n v := by
  induction n with
  | zero => rfl
  | succ n ih => rw [List.replicate_succ, dropNulls_some, ih, List.replicate_succ]

/-- The rows that have a value. -/
theorem filter_singletons (values : List (Option V)) :
    (values.map fun v => [v]).filter (fun row => !row.any Option.isNone) = (dropNulls values).map fun v => [some v] := by
  induction values with
  | nil => rfl
  | cons v values ih =>
    cases v with
    | none => simpa using ih
    | some v => simpa using ih

section

variable [DecidableEq V]

/-- The distinct values that are not null are the distinct ones of those that are not. -/
theorem dropNulls_uniqueBy (values : List (Option V)) :
    dropNulls (Rows.uniqueBy id values) = Rows.uniqueBy id (dropNulls values) := by
  have hnone : ∀ xs : List (Option V), dropNulls (xs.filter fun y => decide (id y ≠ id none)) = dropNulls xs := by
    intro xs
    induction xs with
    | nil => rfl
    | cons x xs ih => cases x <;> simpa using ih
  have hsome : ∀ (v : V) (xs : List (Option V)),
      dropNulls (xs.filter fun y => decide (id y ≠ id (some v))) = (dropNulls xs).filter fun y => decide (id y ≠ id v) := by
    intro v xs
    induction xs with
    | nil => rfl
    | cons x xs ih =>
      cases x with
      | none => simpa using ih
      | some w =>
        by_cases h : w = v
        · simpa [h] using ih
        · simpa [h] using ih
  induction values with
  | nil => rfl
  | cons value values ih =>
    cases value with
    | none => rw [Rows.uniqueBy, dropNulls_none, hnone, ih, dropNulls_none]
    | some v => rw [Rows.uniqueBy, dropNulls_some, hsome, ih, dropNulls_some, Rows.uniqueBy]

/-! ## One group -/

/-- The kernel makes of one copy of a constant what it makes of a copy for each row. -/
def Operand.KernelAgrees (kernel : List V → Option V) (group : List R) : Operand R V → Prop
  | .perRow _ => True
  | .constant _ none => True
  | .constant _ (some v) => kernel [v] = kernel (List.replicate group.length v)

/-- The kernel for an average. -/
def Kernels.average (kernels : Kernels V) (inputIsEmbedding : Bool) : List V → Option V :=
  if inputIsEmbedding then fun values => some (kernels.npMean values) else kernels.mean

/-- What an aggregate takes for granted in a group. -/
def AggregateExpr.Agrees (kernels : Kernels V) (group : List R) : AggregateExpr R V → Prop
  | .sumExpr expr => expr.KernelAgrees kernels.sum group
  | .avgExpr inputIsEmbedding expr => expr.KernelAgrees (kernels.average inputIsEmbedding) group
  | .minExpr expr => expr.KernelAgrees kernels.min group
  | .maxExpr expr => expr.KernelAgrees kernels.max group
  | .stdDevExpr expr => expr.KernelAgrees kernels.std group
  | .countExpr (.constant true value) => value ≠ none
  | .countExpr (.constant false value) => value = none ∨ group.length = 1
  | .listExpr (.constant _ _) _ => False
  | .firstExpr (.perRow eval) => (group.head?.bind eval = none → ∀ r ∈ group, eval r = none)
  | .sumDistinctExpr _ | .countDistinctExpr _ _ | .countExpr (.perRow _) | .listExpr (.perRow _) _
  | .firstExpr (.constant _ _) => True

variable {kernels : Kernels V} {group : List R}

omit [DecidableEq V] in
theorem map_eval_constant (isLiteralExpr : Bool) (value : Option V) :
    group.map (Operand.constant isLiteralExpr value).eval = List.replicate group.length value :=
  List.map_const'

omit [DecidableEq V] in
theorem kernelAgrees_iff (kernel : List V → Option V) (expr : Operand R V) :
    kernel (dropNulls (expr.values group)) = kernel (dropNulls (group.map expr.eval)) ↔ expr.KernelAgrees kernel group := by
  cases expr with
  | perRow eval => exact iff_of_true rfl trivial
  | constant isLiteralExpr value =>
    rw [map_eval_constant]
    cases value with
    | none | some _ => simp [Operand.KernelAgrees, Operand.values]

omit [DecidableEq V] in
theorem averageAgrees_iff (hgroup : group ≠ []) (inputIsEmbedding : Bool) (expr : Operand R V) :
    (convertAvgExpr kernels inputIsEmbedding expr group =
      if inputIsEmbedding then
        if dropNulls (group.map expr.eval) = [] then none else some (kernels.npMean (dropNulls (group.map expr.eval)))
      else kernels.mean (dropNulls (group.map expr.eval))) ↔
      expr.KernelAgrees (kernels.average inputIsEmbedding) group := by
  cases inputIsEmbedding with
  | false => exact kernelAgrees_iff kernels.mean expr
  | true =>
    cases expr with
    | perRow eval =>
      simp [convertAvgExpr, embeddingAvg, Operand.KernelAgrees, Operand.values]
      rfl
    | constant isLiteralExpr value =>
      rw [map_eval_constant]
      cases value with
      | none => simp [convertAvgExpr, embeddingAvg, Operand.KernelAgrees, Operand.values]
      | some v =>
        simp [convertAvgExpr, embeddingAvg, Operand.KernelAgrees, Operand.values, Kernels.average, hgroup]

theorem sumDistinct_eq (hgroup : group ≠ []) (expr : Operand R V) :
    dropNulls (Rows.uniqueBy id (expr.values group)) = Rows.uniqueBy id (dropNulls (group.map expr.eval)) := by
  rw [dropNulls_uniqueBy]
  cases expr with
  | perRow eval => rfl
  | constant isLiteralExpr value =>
    have hlength : group.length ≠ 0 := fun h => hgroup (List.length_eq_zero_iff.mp h)
    rw [map_eval_constant]
    cases value with
    | none => simp [Operand.values]
    | some v => simp [Operand.values, uniqueBy_replicate hlength, Rows.uniqueBy]

omit [DecidableEq V] in
theorem count_iff (hgroup : group ≠ []) (expr : Operand R V) :
    (if expr.isLiteralExpr then group.length else (dropNulls (expr.values group)).length) =
        (dropNulls (group.map expr.eval)).length ↔
      (AggregateExpr.countExpr expr).Agrees kernels group := by
  cases expr with
  | perRow eval => exact iff_of_true rfl trivial
  | constant isLiteralExpr value =>
    rw [map_eval_constant]
    cases isLiteralExpr <;> cases value <;>
      simp [Operand.isLiteralExpr, Operand.values, AggregateExpr.Agrees, hgroup, eq_comm]

/-- Values count as rows of one column. -/
theorem nUnique_dropNulls (values : List (Option V)) :
    nUnique (dropNulls values) = nUnique ((values.map fun v => [v]).filter fun row => !row.any Option.isNone) := by
  have hinjective : Function.Injective fun v : V => [some v] := fun v w h => Option.some.inj (List.cons.inj h).1
  rw [filter_singletons, nUnique_map hinjective]

/-- A struct of constants stands for its copies. -/
theorem nUnique_structRows (hgroup : group ≠ []) (exprs : List (Operand R V)) (p : List (Option V) → Bool) :
    nUnique ((structRows exprs group).filter p) =
      nUnique ((group.map fun r => exprs.map fun expr => expr.eval r).filter p) := by
  have hlength : group.length ≠ 0 := fun h => hgroup (List.length_eq_zero_iff.mp h)
  unfold structRows
  split
  · case isTrue hconstant =>
      have hrow : ∀ r : R, (exprs.map fun expr => expr.eval r) = exprs.map Operand.constantValue := by
        intro r
        apply List.map_congr_left
        intro expr hexpr
        cases expr with
        | perRow eval => exact absurd (List.all_eq_true.mp hconstant _ hexpr) nofun
        | constant isLiteralExpr value => rfl
      simp only [hrow]
      rw [List.map_const', nUnique_filter_replicate hlength]
  · rfl

/-- Distinct rows are counted as they are to be, over columns and constants. -/
theorem countDistinct_eq (hgroup : group ≠ []) (exprs : List (Operand R V)) :
    convertCountDistinctExpr exprs group =
      nUnique ((group.map fun r => exprs.map fun expr => expr.eval r).filter fun row => !row.any Option.isNone) := by
  unfold convertCountDistinctExpr
  split
  · case h_1 expr =>
      rw [nUnique_dropNulls]
      cases expr with
      | perRow eval =>
        rw [Operand.values, List.map_map]
        rfl
      | constant isLiteralExpr value =>
        have hlength : group.length ≠ 0 := fun h => hgroup (List.length_eq_zero_iff.mp h)
        show _ = nUnique ((group.map fun _ => [value]).filter _)
        rw [List.map_const', nUnique_filter_replicate hlength]
        rfl
  · exact nUnique_structRows hgroup exprs _

omit [DecidableEq V] in
theorem dropNulls_eq_nil {values : List (Option V)} : dropNulls values = [] ↔ ∀ v ∈ values, v = none := by
  rw [dropNulls, List.filterMap_eq_nil_iff]
  rfl

omit [DecidableEq V] in
/-- The first value is the first one that is not null, unless it is null and another one is not. -/
theorem first_iff (hgroup : group ≠ []) (expr : Operand R V) :
    (expr.values group).head?.join = (dropNulls (group.map expr.eval)).head? ↔
      (AggregateExpr.firstExpr expr).Agrees kernels group := by
  cases expr with
  | perRow eval =>
    cases group with
    | nil => exact absurd rfl hgroup
    | cons r group =>
      show (eval r) = (dropNulls (eval r :: group.map eval)).head? ↔ (eval r = none → ∀ r' ∈ r :: group, eval r' = none)
      cases hr : eval r with
      | some v => exact iff_of_true rfl nofun
      | none =>
        rw [dropNulls_none, eq_comm, List.head?_eq_none_iff, dropNulls_eq_nil]
        simp [hr]
  | constant isLiteralExpr value =>
    refine iff_of_true ?_ trivial
    rw [map_eval_constant]
    cases value with
    | none => simp [Operand.values]
    | some v => simp [Operand.values, List.head?_replicate, hgroup]

/-- **An aggregate of a group is what it is to be, exactly if it agrees.** -/
theorem AggregateExpr.convert_eq_iff (hgroup : group ≠ []) (aggExpr : AggregateExpr R V) :
    aggExpr.convert kernels group = aggExpr.meaning kernels group ↔ aggExpr.Agrees kernels group := by
  cases aggExpr with
  | sumExpr expr => simpa [convert, meaning, Agrees] using kernelAgrees_iff kernels.sum expr
  | minExpr expr => simpa [convert, meaning, Agrees] using kernelAgrees_iff kernels.min expr
  | maxExpr expr => simpa [convert, meaning, Agrees] using kernelAgrees_iff kernels.max expr
  | stdDevExpr expr => simpa [convert, meaning, Agrees] using kernelAgrees_iff kernels.std expr
  | avgExpr inputIsEmbedding expr => simpa [convert, meaning, Agrees] using averageAgrees_iff hgroup inputIsEmbedding expr
  | sumDistinctExpr expr =>
    refine iff_of_true ?_ trivial
    rw [convert, meaning, sumDistinct_eq hgroup]
  | countExpr expr => simpa [convert, meaning] using count_iff hgroup expr
  | countDistinctExpr exprs nonempty =>
    refine iff_of_true ?_ trivial
    rw [convert, meaning, countDistinct_eq hgroup]
  | listExpr expr notLiteral =>
    cases expr with
    | perRow eval => exact iff_of_true rfl trivial
    | constant isLiteralExpr value => exact iff_of_false nofun id
  | firstExpr expr => simpa [convert, meaning] using first_iff hgroup expr

/-! ## All groups -/

theorem mem_groupsBy {α κ : Type} [DecidableEq κ] {key : α → κ} {xs : List α} {k : κ} {group : List α} :
    (k, group) ∈ Rows.groupsBy key xs ↔ k ∈ xs.map key ∧ group = xs.filter fun x => key x = k := by
  unfold Rows.groupsBy
  rw [List.mem_map]
  constructor
  · rintro ⟨k', hk', heq⟩
    cases heq
    exact ⟨List.mem_dedup.mp hk', rfl⟩
  · rintro ⟨hk, rfl⟩
    exact ⟨k, List.mem_dedup.mpr hk, rfl⟩

theorem groupsBy_keys {α κ : Type} [DecidableEq κ] (key : α → κ) (xs : List α) :
    (Rows.groupsBy key xs).map Prod.fst = (xs.map key).dedup := by
  rw [Rows.groupsBy, List.map_map]
  exact List.map_id _

namespace Aggregate

variable {kernels : Kernels V} {aggregate : Aggregate R V} {childDf : List R}

/-- The rows with the key of a row. -/
def groupOf (aggregate : Aggregate R V) (childDf : List R) (r : R) : List R :=
  childDf.filter fun r' => aggregate.key r' = aggregate.key r

theorem groupOf_ne_nil {r : R} (hr : r ∈ childDf) : aggregate.groupOf childDf r ≠ [] :=
  List.ne_nil_of_mem (List.mem_filter.mpr ⟨hr, decide_eq_true rfl⟩)

omit [DecidableEq V] in
theorem key_of_no_keys (hkeys : aggregate.groupExprs = []) (r : R) : aggregate.key r = [] := by
  rw [key, hkeys, List.map_nil]

omit [DecidableEq V] in
/-- Without keys, all rows are one group. -/
theorem filter_of_no_keys (hkeys : aggregate.groupExprs = []) : (childDf.filter fun r => aggregate.key r = []) = childDf :=
  List.filter_eq_self.mpr fun r _ => decide_eq_true (key_of_no_keys hkeys r)

theorem groupOf_of_no_keys (hkeys : aggregate.groupExprs = []) (r : R) : aggregate.groupOf childDf r = childDf := by
  rw [groupOf, key_of_no_keys hkeys r, filter_of_no_keys hkeys]

/-- With keys, the rows are the groups. -/
theorem executeNode_of_keys (hkeys : aggregate.groupExprs ≠ []) : aggregate.executeNode kernels childDf =
    some ⟨aggregate.groupExprs.map Prod.fst ++ aggregate.aggExprs.map Prod.fst,
      (Rows.groupsBy aggregate.key childDf).map fun (key, group) =>
        (key, aggregate.aggExprs.map fun aggExpr => aggExpr.2.convert kernels group)⟩ := by
  rw [executeNode, if_neg hkeys, groupByAgg, if_pos aggregate.nodup]

/-- Without keys, there is a row if there are rows, unless an aggregate has the name of the dummy key. -/
theorem executeNode_of_no_keys (hkeys : aggregate.groupExprs = []) : aggregate.executeNode kernels childDf =
    if dummyGroupId ∈ aggregate.aggExprs.map Prod.fst then none
    else some ⟨aggregate.aggExprs.map Prod.fst,
      if childDf = [] then [] else [([], aggregate.aggExprs.map fun aggExpr => aggExpr.2.convert kernels childDf)]⟩ := by
  have hnodup : (aggregate.aggExprs.map Prod.fst).Nodup := by
    have := aggregate.nodup
    rwa [hkeys] at this
  have hgroups : Rows.groupsBy (fun _ => 1) childDf = if childDf = [] then [] else [(1, childDf)] := by
    unfold Rows.groupsBy
    rw [List.map_const']
    cases childDf with
    | nil => rfl
    | cons r childDf =>
      rw [List.length_cons, List.replicate_dedup (Nat.succ_ne_zero _)]
      simp
  rw [executeNode, if_pos hkeys, groupByAgg, hgroups]
  by_cases hdummy : dummyGroupId ∈ aggregate.aggExprs.map Prod.fst
  · have hnot : ¬ ([dummyGroupId] ++ aggregate.aggExprs.map Prod.fst).Nodup := fun h => (List.nodup_cons.mp h).1 hdummy
    rw [if_neg hnot, if_pos hdummy, Option.map_none]
  · have hnames : (dummyGroupId :: aggregate.aggExprs.map Prod.fst).filter (· ≠ dummyGroupId) =
        aggregate.aggExprs.map Prod.fst := by
      rw [List.filter_cons_of_neg (by simp)]
      exact List.filter_eq_self.mpr fun name hname => decide_eq_true fun heq => hdummy (heq ▸ hname)
    rw [List.singleton_append, if_pos (List.nodup_cons.mpr ⟨hdummy, hnodup⟩), if_neg hdummy, Option.map_some]
    rw [hnames]
    split <;> rfl

/-- The first score of all rows. -/
def firstScore : Aggregate (Option Nat) Nat where
  groupExprs := []
  aggExprs := [("first(score)", .firstExpr (.perRow id))]
  nodup := by decide

end Aggregate

end

end Aggregation

end Fenic
