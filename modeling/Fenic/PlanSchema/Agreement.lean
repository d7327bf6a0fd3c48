import Fenic.PlanSchema.Plan

/-!
# `PlanSchema.Agreement` — when frames have the columns of their schemas

Every node builds its schema in the logical class and its columns in a physical operator. `Plan.FollowsPlan` says of one
node, and of the frames of its inputs, when the two make the same columns: an explode with index never does, and a case
without an alias has two names. `agrees_iff` puts the nodes of a plan together.
-/

namespace Fenic

open Expressions

/-! ## Names of columns -/

namespace Schema

theorem columnNames_withColumn (s : Schema) (f : ColumnField) :
    (s.withColumn f).columnNames = if f.name ∈ s.columnNames then s.columnNames else s.columnNames ++ [f.name] := by
  unfold withColumn
  split
  · rw [columnNames, columnNames, List.map_map]
    apply List.map_congr_left
    intro g _
    by_cases hg : g.name = f.name
    · rw [Function.comp_apply, if_pos hg, hg]
    · rw [Function.comp_apply, if_neg hg]
  · rw [columnNames, List.map_append]
    rfl

theorem validated_eq_some {s t : Schema} : s.validated = some t ↔ s = t ∧ s.columnNames.Nodup := by
  unfold validated
  split
  next h => exact ⟨fun heq => ⟨Option.some_inj.mp heq, h⟩, fun heq => congrArg some heq.1⟩
  next h => exact ⟨nofun, fun heq => absurd heq.2 h⟩

end Schema

variable {name : String}

theorem mem_of_columnType {s : Schema} {t : DataType} (h : columnType s name = some t) :
    name ∈ s.columnNames := by
  obtain ⟨f, hf, -⟩ := Option.map_eq_some_iff.mp h
  have hname : f.name = name := by simpa using List.find?_some hf
  exact hname ▸ List.mem_map_of_mem (List.mem_of_find?_eq_some hf)

/-- A column that replaces another one has its name. -/
theorem find?_replace (s : Schema) (f : ColumnField) (name : String) :
    (s.map fun g => if g.name = f.name then f else g).find? (fun g => g.name = name) =
      (s.find? fun g => g.name = name).map fun g => if g.name = f.name then f else g := by
  have hcomp : ((fun g : ColumnField => decide (g.name = name)) ∘ fun g => if g.name = f.name then f else g) =
      fun g => decide (g.name = name) := by
    funext g
    by_cases h : g.name = f.name <;> simp [h]
  rw [List.find?_map, hcomp]

theorem find?_eq_none_of_not_mem {s : Schema} (h : name ∉ s.columnNames) :
    s.find? (fun g => g.name = name) = none := by
  refine List.find?_eq_none.mpr fun g hg hname => h ?_
  rw [← of_decide_eq_true hname]
  exact List.mem_map_of_mem hg

theorem columnType_withColumn_self (s : Schema) (f : ColumnField) :
    columnType (s.withColumn f) f.name = some f.dataType := by
  unfold Schema.withColumn
  split
  next h =>
      obtain ⟨g, hg, hname⟩ := List.mem_map.mp h
      obtain ⟨g', hg'⟩ : ∃ g', s.find? (fun g => g.name = f.name) = some g' :=
        Option.isSome_iff_exists.mp (List.find?_isSome.mpr ⟨g, hg, by simpa using hname⟩)
      have hname' : g'.name = f.name := by simpa using List.find?_some hg'
      rw [columnType, find?_replace, hg', Option.map_some, if_pos hname', Option.map_some]
  next h =>
      rw [columnType, List.find?_append, find?_eq_none_of_not_mem h]
      simp

theorem columnType_withColumn_of_ne {s : Schema} {f : ColumnField} (hne : f.name ≠ name) :
    columnType (s.withColumn f) name = columnType s name := by
  unfold Schema.withColumn
  split
  · rw [columnType, columnType, find?_replace]
    cases hg : s.find? fun g => g.name = name with
    | none => rfl
    | some g =>
      have hname : g.name = name := by simpa using List.find?_some hg
      rw [Option.map_some, if_neg (hname ▸ hne.symm)]
  · rw [columnType, columnType, List.find?_append]
    simp [hne]

variable {Func Model Series : Type} [Signatures Func Model Series]

/-! ## Names of expressions -/

namespace Expressions.LogicalExpr

/-- The name of a field is not longer than the printed form, and that of a case is shorter. -/
theorem columnFieldName_length (e : LogicalExpr Func Model Series) :
    e.columnFieldName.length ≤ e.printed.length ∧ (e.isCase = true → e.columnFieldName.length < e.printed.length) := by
  fun_induction columnFieldName e with
  | case1 name children =>
    refine ⟨?_, nofun⟩
    rw [printed_node, ExprHead.printed]
    simp only [String.length_append]
    omega
  | case2 condition value ih =>
    have hthen : ") THEN (".length = 8 := rfl
    have hprinted : printed (.node (.unparameterized .when) [condition, value]) =
        "CASE WHEN (" ++ condition.printed ++ ") THEN (" ++ value.printed ++ ")" := rfl
    rw [hprinted]
    simp only [String.length_append, hthen]
    exact ⟨by omega, fun _ => by omega⟩
  | case3 case condition value ih =>
    have hthen : ") THEN (".length = 8 := rfl
    have hprinted : printed (.node (.unparameterized .when) [case, condition, value]) =
        case.printed ++ " WHEN (" ++ condition.printed ++ ") THEN (" ++ value.printed ++ ")" := rfl
    rw [hprinted]
    simp only [String.length_append, hthen]
    exact ⟨by omega, fun _ => by omega⟩
  | case4 case value ih =>
    have helse : " ELSE (".length = 7 := rfl
    have hprinted : printed (.node (.unparameterized .otherwise) [case, value]) =
        case.printed ++ " ELSE (" ++ value.printed ++ ")" := rfl
    rw [hprinted]
    simp only [String.length_append, helse]
    exact ⟨by omega, fun _ => by omega⟩
  | case5 e _ hwhen hchain hotherwise =>
    refine ⟨le_rfl, fun hcase => ?_⟩
    unfold isCase at hcase
    split at hcase
    · exact absurd rfl (hwhen _ _)
    · exact absurd rfl (hchain _ _ _)
    · exact absurd rfl (hotherwise _ _)
    · cases hcase

/-- The converter names a column as it was planned, unless it is a case without an alias. -/
theorem fieldName_eq_iff {e : LogicalExpr Func Model Series} : e.fieldName = e.columnFieldName ↔ e.isCase = false := by
  constructor
  · intro heq
    by_contra hcase
    have hcase := Bool.eq_true_of_not_eq_false hcase
    have hlt := (columnFieldName_length e).2 hcase
    have hfield : e.fieldName = e.printed := by
      unfold isCase at hcase
      split at hcase <;> first | rfl | cases hcase
    rw [← heq, hfield] at hlt
    exact lt_irrefl _ hlt
  · intro hcase
    fun_induction columnFieldName e with
    | case1 => rfl
    | case2 => cases hcase
    | case3 => cases hcase
    | case4 => cases hcase
    | case5 e halias =>
      obtain ⟨head, children⟩ := e
      unfold fieldName
      split
      next name hname => exact absurd (congrArg (LogicalExpr.node · children) hname) (halias name children)
      next => rfl

end Expressions.LogicalExpr

namespace PlanSchema

open Expressions.LogicalExpr

/-! ## What a node needs -/

/-- The converted expression has a column on the frame: nothing in it is refused. -/
def Runs (planned frame : Schema) (e : Expressions.LogicalExpr Func Model Series) : Prop :=
  ∃ t, e.engineTypeAt planned frame false = some t

/-- Every expression is named as planned and runs. -/
def FollowsProjection (planned frame : Schema) (exprs : List (Expressions.LogicalExpr Func Model Series)) : Prop :=
  ∀ e ∈ exprs, e.isCase = false ∧ Runs planned frame e

/-- There are two frames, and their columns have the same types. -/
def FollowsUnion (frames : List Schema) : Prop :=
  ∃ left right, frames = [left, right] ∧
    left.mapM (fun f => (columnType right f.name).map fun t => ⟨f.name, t⟩) = some left

/-- The expression is a column of arrays that is named as planned, or a case, of which both names are columns of the frame
    and the name of the value that of a column of arrays. -/
def FollowsExplode (planned frame : Schema) (expr : Expressions.LogicalExpr Func Model Series) : Prop :=
  (expr.isCase = false ∧ ∃ t, expr.engineTypeAt planned frame false = some (.arrayType t)) ∨
    (expr.isCase = true ∧ Runs planned frame expr ∧ expr.fieldName ∈ frame.columnNames ∧
      ∃ t, columnType frame expr.columnFieldName = some (.arrayType t))

/-- The columns are in the frame, and the names of the fields in their places are the planned ones. -/
def FollowsUnnest (planned frame : Schema) (colNames : List String) : Prop :=
  (∀ name ∈ colNames, name ∈ frame.columnNames) ∧
    (frame.unnest colNames).map Schema.columnNames = (planned.unnest colNames).map Schema.columnNames

/-- The groups are named as planned, everything runs, and without groups no aggregate has the name of the dummy group. -/
def FollowsAggregate (planned frame : Schema) (groupExprs : List (Expressions.LogicalExpr Func Model Series))
    (aggExprs : List (String × Expressions.LogicalExpr Func Model Series)) : Prop :=
  FollowsProjection planned frame groupExprs ∧ (∀ agg ∈ aggExprs, Runs planned frame agg.2) ∧
    (groupExprs = [] → dummyGroup.name ∉ aggExprs.map Prod.fst)

/-! ## Nodes -/

section

variable {planned frame s : Schema}

variable {exprs : List (Expressions.LogicalExpr Func Model Series)}

theorem columnNames_of_toColumnField
    (h : exprs.mapM (toColumnField planned) = some s) : s.columnNames = exprs.map columnFieldName := by
  refine Rows.map_of_mapM (fun e f hf => ?_) h
  obtain ⟨t, -, rfl⟩ := Option.map_eq_some_iff.mp hf
  rfl

theorem columnNames_of_convertedField
    (h : exprs.mapM (convertedField planned frame) = some s) : s.columnNames = exprs.map fieldName := by
  refine Rows.map_of_mapM (fun e f hf => ?_) h
  obtain ⟨t, -, rfl⟩ := Option.map_eq_some_iff.mp hf
  rfl

theorem exists_convertedField {e : Expressions.LogicalExpr Func Model Series} :
    (∃ f, convertedField planned frame e = some f) ↔ Runs planned frame e := by
  constructor
  · rintro ⟨f, hf⟩
    obtain ⟨t, ht, -⟩ := Option.map_eq_some_iff.mp hf
    exact ⟨t, ht⟩
  · rintro ⟨t, ht⟩
    exact ⟨_, Option.map_eq_some_iff.mpr ⟨t, ht, rfl⟩⟩

/-- Expressions are named as planned when none of them is a case. -/
theorem map_fieldName_eq_iff :
    exprs.map fieldName = exprs.map columnFieldName ↔ ∀ e ∈ exprs, e.isCase = false := by
  rw [List.map_inj_left]
  exact forall₂_congr fun e _ => fieldName_eq_iff

theorem projectionExec_iff
    (hs : projectionSchema planned exprs = some s) :
    (projectionExec planned frame exprs).map Schema.columnNames = some s.columnNames ↔
      FollowsProjection planned frame exprs := by
  obtain ⟨-, hs⟩ := Option.ite_none_right_eq_some.mp hs
  obtain ⟨fields, hfields, hs⟩ := Option.bind_eq_some_iff.mp hs
  obtain ⟨rfl, hnodup⟩ := Schema.validated_eq_some.mp hs
  have hplanned := columnNames_of_toColumnField hfields
  constructor
  · intro h
    obtain ⟨f, hf, hnames⟩ := Option.map_eq_some_iff.mp h
    obtain ⟨columns, hcolumns, hf⟩ := Option.bind_eq_some_iff.mp hf
    obtain ⟨rfl, -⟩ := Schema.validated_eq_some.mp hf
    rw [columnNames_of_convertedField hcolumns, hplanned, map_fieldName_eq_iff] at hnames
    exact fun e he => ⟨hnames e he, exists_convertedField.mp (Rows.mapM_isSome.mp ⟨columns, hcolumns⟩ e he)⟩
  · intro h
    obtain ⟨columns, hcolumns⟩ := Rows.mapM_isSome.mpr fun e he => exists_convertedField.mpr (h e he).2
    have hnames : Schema.columnNames columns = Schema.columnNames fields := by
      rw [columnNames_of_convertedField hcolumns, hplanned, map_fieldName_eq_iff]
      exact fun e he => (h e he).1
    rw [projectionExec, hcolumns, Option.bind_some, Schema.validated_eq_some.mpr ⟨rfl, hnames ▸ hnodup⟩]
    exact congrArg some hnames

variable {expr : Expressions.LogicalExpr Func Model Series}

theorem explodeSchema_eq_some (hs : explodeSchema planned expr = some s) :
    ∃ t, s = planned.withColumn ⟨expr.columnFieldName, t⟩ := by
  obtain ⟨-, hs⟩ := Option.ite_none_right_eq_some.mp hs
  split at hs
  next name t hfield =>
      obtain ⟨u, -, heq⟩ := Option.map_eq_some_iff.mp hfield
      cases heq
      exact ⟨t, (Schema.validated_eq_some.mp hs).1.symm⟩
  next => cases hs

variable {f : Schema}

/-- A frame in which a named column of arrays is exploded keeps its columns. -/
theorem explodeExec_eq_some
    (h : explodeExec planned frame expr = some f) :
    ∃ t u, expr.engineTypeAt planned frame false = some t ∧
      columnType (frame.withColumn ⟨expr.fieldName, t⟩) expr.columnFieldName = some (.arrayType u) ∧
      f.columnNames = (frame.withColumn ⟨expr.fieldName, t⟩).columnNames := by
  obtain ⟨column, hcolumn, h⟩ := Option.bind_eq_some_iff.mp h
  obtain ⟨t, ht, rfl⟩ := Option.map_eq_some_iff.mp hcolumn
  split at h
  next u hu =>
      cases h
      refine ⟨t, u, ht, hu, ?_⟩
      rw [Schema.columnNames_withColumn, if_pos (mem_of_columnType hu)]
  next => cases h

theorem explodeExec_iff (hnames : frame.columnNames = planned.columnNames)
    (hs : explodeSchema planned expr = some s) :
    (explodeExec planned frame expr).map Schema.columnNames = some s.columnNames ↔
      FollowsExplode planned frame expr := by
  obtain ⟨v, rfl⟩ := explodeSchema_eq_some hs
  rw [Schema.columnNames_withColumn, ← hnames]
  constructor
  · intro h
    obtain ⟨f, hf, hcolumns⟩ := Option.map_eq_some_iff.mp h
    obtain ⟨t, u, ht, hu, hfnames⟩ := explodeExec_eq_some hf
    cases hcase : expr.isCase with
    | false =>
      rw [← fieldName_eq_iff.mpr hcase, columnType_withColumn_self] at hu
      exact Or.inl ⟨hcase, u, by rw [ht]; exact hu⟩
    | true =>
      have hne : expr.fieldName ≠ expr.columnFieldName := fun heq => by
        rw [fieldName_eq_iff.mp heq] at hcase
        cases hcase
      rw [columnType_withColumn_of_ne hne] at hu
      refine Or.inr ⟨hcase, ⟨t, ht⟩, ?_, u, hu⟩
      rw [hfnames, if_pos (mem_of_columnType hu), Schema.columnNames_withColumn] at hcolumns
      by_contra hnot
      rw [if_neg hnot] at hcolumns
      simp at hcolumns
  · rintro (⟨hcase, u, hu⟩ | ⟨hcase, ⟨t, ht⟩, hfield, u, hu⟩)
    · have hcolumn : columnType (frame.withColumn ⟨expr.fieldName, .arrayType u⟩) expr.columnFieldName =
          some (.arrayType u) := by
        rw [← fieldName_eq_iff.mpr hcase]
        exact columnType_withColumn_self _ _
      rw [explodeExec, convertedField, hu, Option.map_some, Option.bind_some, hcolumn]
      refine congrArg some ?_
      rw [Schema.columnNames_withColumn, if_pos (mem_of_columnType hcolumn), Schema.columnNames_withColumn,
        fieldName_eq_iff.mpr hcase]
    · have hne : expr.fieldName ≠ expr.columnFieldName := fun heq => by
        rw [fieldName_eq_iff.mp heq] at hcase
        cases hcase
      have hcolumn : columnType (frame.withColumn ⟨expr.fieldName, t⟩) expr.columnFieldName = some (.arrayType u) := by
        rw [columnType_withColumn_of_ne hne, hu]
      rw [explodeExec, convertedField, ht, Option.map_some, Option.bind_some, hcolumn]
      refine congrArg some ?_
      rw [Schema.columnNames_withColumn, if_pos (mem_of_columnType hcolumn), Schema.columnNames_withColumn, if_pos hfield,
        if_pos (mem_of_columnType hu)]

/-! ### The index -/

theorem valueName_mem_explodedColumns (schema : Schema) (name valueName : String) (t : DataType) :
    valueName ∈ (explodedColumns schema name valueName t).columnNames := by
  have hvalue : (⟨valueName, t⟩ : ColumnField) ∈ explodedColumns schema name valueName t := by
    unfold explodedColumns
    by_cases hname : name ∈ schema.columnNames
    · obtain ⟨f, hf, hfname⟩ := List.mem_map.mp hname
      refine List.mem_append_left _ (List.mem_flatMap.mpr ⟨f, hf, ?_⟩)
      rw [if_pos hfname]
      split
      · exact List.mem_cons_of_mem _ List.mem_cons_self
      · exact List.mem_cons_self
    · rw [if_neg hname]
      exact List.mem_append_right _ List.mem_cons_self
  exact List.mem_map_of_mem hvalue

variable {name valueName : String}

theorem columnNames_subset_explodedColumns {schema : Schema} {t : DataType} {n : String}
    (hn : n ∈ schema.columnNames) : n ∈ (explodedColumns schema name valueName t).columnNames := by
  obtain ⟨f, hf, rfl⟩ := List.mem_map.mp hn
  by_cases hreplaced : f.name = name ∧ valueName = f.name
  · exact hreplaced.2 ▸ valueName_mem_explodedColumns schema name valueName t
  · refine List.mem_map_of_mem (List.mem_append_left _ (List.mem_flatMap.mpr ⟨f, hf, ?_⟩))
    split
    next hname => rw [if_pos fun hvalue => hreplaced ⟨hname, hvalue⟩]; exact List.mem_cons_self
    next => exact List.mem_cons_self

/-- A new column is not the first one. -/
theorem head_withColumn {s : Schema} {f : ColumnField} {rest : List String}
    (h : s.columnNames = name :: rest) : ∃ rest', (s.withColumn f).columnNames = name :: rest' := by
  rw [Schema.columnNames_withColumn, h]
  split
  · exact ⟨rest, rfl⟩
  · exact ⟨rest ++ [f.name], rfl⟩

theorem head_rename {s : Schema} {newName first : String} {rest : List String}
    (h : rename s name newName = some f) (hfirst : s.columnNames = first :: rest) :
    ∃ rest', f.columnNames = (if first = name then newName else first) :: rest' := by
  unfold rename at h
  split at h
  next heq =>
      cases h
      refine ⟨rest, hfirst.trans ?_⟩
      by_cases hname : first = name
      · rw [if_pos hname, heq, hname]
      · rw [if_neg hname]
  next =>
      obtain ⟨-, h⟩ := Option.ite_none_left_eq_some.mp h
      cases h
      cases s with
      | nil => cases hfirst
      | cons g s =>
        obtain ⟨rfl, -⟩ := List.cons.inj hfirst
        refine ⟨Schema.columnNames (s.map fun f => if f.name = name then ⟨newName, f.dataType⟩ else f), ?_⟩
        rw [List.map_cons, Schema.columnNames, List.map_cons]
        split <;> rfl

variable {indexName : String}

theorem explodeWithIndexSchema_eq_some
    (hs : explodeWithIndexSchema planned expr indexName valueName = some s) :
    ∃ t, s = ⟨indexName, .integerType⟩ :: explodedColumns planned expr.columnFieldName valueName t ∧
      s.columnNames.Nodup := by
  obtain ⟨-, hs⟩ := Option.ite_none_right_eq_some.mp hs
  split at hs
  next name t hfield =>
      obtain ⟨u, -, heq⟩ := Option.map_eq_some_iff.mp hfield
      cases heq
      obtain ⟨rfl, hnodup⟩ := Schema.validated_eq_some.mp hs
      exact ⟨t, rfl, hnodup⟩
  next => cases hs

/-- The first column of an explode with index is the values, or the first column of its input. -/
theorem head_explodeWithIndexExec
    (h : explodeWithIndexExec planned frame expr indexName valueName = some f) :
    ∃ first rest, f.columnNames = first :: rest ∧ (first = valueName ∨ first ∈ frame.columnNames) := by
  obtain ⟨column, hcolumn, h⟩ := Option.bind_eq_some_iff.mp h
  obtain ⟨t, ht, rfl⟩ := Option.map_eq_some_iff.mp hcolumn
  split at h
  next u hu =>
      have hmem := mem_of_columnType hu
      cases hframe : frame.columnNames with
      | nil =>
        -- the exploded column is the only one
        have hnames : (frame.withColumn ⟨expr.fieldName, t⟩).columnNames = [expr.fieldName] := by
          rw [Schema.columnNames_withColumn, hframe]
          rfl
        rw [hnames, List.mem_singleton] at hmem
        obtain ⟨rest₁, h₁⟩ := head_withColumn (f := ⟨expr.columnFieldName, u⟩) hnames
        obtain ⟨rest₂, h₂⟩ := head_withColumn (f := ⟨indexName, .integerType⟩) h₁
        obtain ⟨rest₃, h₃⟩ := head_rename h h₂
        rw [if_pos hmem.symm] at h₃
        exact ⟨_, rest₃, h₃, Or.inl rfl⟩
      | cons first rest =>
        obtain ⟨rest₀, h₀⟩ := head_withColumn (f := ⟨expr.fieldName, t⟩) hframe
        obtain ⟨rest₁, h₁⟩ := head_withColumn (f := ⟨expr.columnFieldName, u⟩) h₀
        obtain ⟨rest₂, h₂⟩ := head_withColumn (f := ⟨indexName, .integerType⟩) h₁
        obtain ⟨rest₃, h₃⟩ := head_rename h h₂
        refine ⟨_, rest₃, h₃, ?_⟩
        split
        · exact Or.inl rfl
        · exact Or.inr List.mem_cons_self
  next => cases h

/-- An explode with index is planned with the index first, where it is never made. -/
theorem explodeWithIndexExec_ne
    (hnames : frame.columnNames = planned.columnNames)
    (hs : explodeWithIndexSchema planned expr indexName valueName = some s) :
    (explodeWithIndexExec planned frame expr indexName valueName).map Schema.columnNames ≠ some s.columnNames := by
  obtain ⟨t, rfl, hnodup⟩ := explodeWithIndexSchema_eq_some hs
  obtain ⟨hindex, -⟩ := List.nodup_cons.mp hnodup
  intro h
  obtain ⟨f, hf, hcolumns⟩ := Option.map_eq_some_iff.mp h
  obtain ⟨first, rest, hfirst, hor⟩ := head_explodeWithIndexExec hf
  obtain ⟨rfl, -⟩ := List.cons.inj (hfirst.symm.trans hcolumns)
  apply hindex
  rcases hor with hvalue | hmem
  · rw [hvalue]
    exact valueName_mem_explodedColumns planned _ _ t
  · exact columnNames_subset_explodedColumns (hnames ▸ hmem)

/-! ### Structs and groups -/

theorem unnestExec_iff {colNames : List String} (hs : (planned.unnest colNames).bind Schema.validated = some s) :
    (unnestExec frame colNames).map Schema.columnNames = some s.columnNames ↔ FollowsUnnest planned frame colNames := by
  obtain ⟨columns, hcolumns, hs⟩ := Option.bind_eq_some_iff.mp hs
  obtain ⟨rfl, hnodup⟩ := Schema.validated_eq_some.mp hs
  constructor
  · intro h
    obtain ⟨f, hf, hnames⟩ := Option.map_eq_some_iff.mp h
    obtain ⟨hmem, hf⟩ := Option.ite_none_right_eq_some.mp hf
    obtain ⟨made, hmade, hf⟩ := Option.bind_eq_some_iff.mp hf
    obtain ⟨rfl, -⟩ := Schema.validated_eq_some.mp hf
    refine ⟨hmem, ?_⟩
    rw [hmade, hcolumns]
    exact congrArg some hnames
  · rintro ⟨hmem, hnames⟩
    rw [hcolumns] at hnames
    obtain ⟨made, hmade, hnames⟩ := Option.map_eq_some_iff.mp hnames
    rw [unnestExec, if_pos hmem, hmade, Option.bind_some, Schema.validated_eq_some.mpr ⟨rfl, hnames ▸ hnodup⟩]
    exact congrArg some hnames

variable {aggExprs : List (String × Expressions.LogicalExpr Func Model Series)}

theorem columnNames_of_aggField
    (h : aggExprs.mapM (aggField planned) = some s) : s.columnNames = aggExprs.map Prod.fst := by
  refine Rows.map_of_mapM (fun agg f hf => ?_) h
  obtain ⟨t, -, rfl⟩ := Option.map_eq_some_iff.mp hf
  rfl

theorem columnNames_of_convertedAgg
    (h : aggExprs.mapM (convertedAgg planned frame) = some s) : s.columnNames = aggExprs.map Prod.fst := by
  refine Rows.map_of_mapM (fun agg f hf => ?_) h
  obtain ⟨t, -, rfl⟩ := Option.map_eq_some_iff.mp hf
  rfl

theorem exists_convertedAgg {agg : String × Expressions.LogicalExpr Func Model Series} :
    (∃ f, convertedAgg planned frame agg = some f) ↔ Runs planned frame agg.2 := by
  constructor
  · rintro ⟨f, hf⟩
    obtain ⟨t, ht, -⟩ := Option.map_eq_some_iff.mp hf
    exact ⟨t, ht⟩
  · rintro ⟨t, ht⟩
    exact ⟨_, Option.map_eq_some_iff.mpr ⟨t, ht, rfl⟩⟩

theorem columnNames_append (s t : Schema) : Schema.columnNames (s ++ t) = s.columnNames ++ t.columnNames :=
  List.map_append

/-- An aggregate has the columns of its groups and aggregates, no two of one name. -/
theorem aggregateExec_eq_some {groupExprs : List (Expressions.LogicalExpr Func Model Series)}
    :
    aggregateExec planned frame groupExprs aggExprs = some f ↔
      ∃ groups aggs, groupExprs.mapM (convertedField planned frame) = some groups ∧
        aggExprs.mapM (convertedAgg planned frame) = some aggs ∧ groups ++ aggs = f ∧ f.columnNames.Nodup ∧
        (groupExprs = [] → dummyGroup.name ∉ aggExprs.map Prod.fst) := by
  unfold aggregateExec
  simp only [Option.bind_eq_some_iff]
  refine exists_congr fun groups => ?_
  rw [← exists_and_left]
  apply exists_congr
  intro aggs
  rw [and_congr_right_iff]
  intro hgroups
  apply and_congr_right
  intro haggs
  have hempty : groups = [] ↔ groupExprs = [] := by
    have hnames := columnNames_of_convertedField hgroups
    rw [← List.map_eq_nil_iff (f := ColumnField.name), ← List.map_eq_nil_iff (f := fieldName)]
    exact iff_of_eq (congrArg (· = []) hnames)
  by_cases hnil : groupExprs = []
  · obtain rfl := hempty.mpr hnil
    constructor
    · intro h
      obtain ⟨t, ht, rfl⟩ := Option.map_eq_some_iff.mp h
      obtain ⟨rfl, hnodup⟩ := Schema.validated_eq_some.mp ht
      obtain ⟨hdummy, hnodup⟩ := List.nodup_cons.mp hnodup
      exact ⟨rfl, hnodup, fun _ => columnNames_of_convertedAgg haggs ▸ hdummy⟩
    · rintro ⟨rfl, hnodup, hdummy⟩
      have hdummy' : dummyGroup.name ∉ Schema.columnNames aggs := columnNames_of_convertedAgg haggs ▸ hdummy hnil
      exact Option.map_eq_some_iff.mpr
        ⟨_, Schema.validated_eq_some.mpr ⟨rfl, List.nodup_cons.mpr ⟨hdummy', hnodup⟩⟩, rfl⟩
  · rw [if_neg (mt hempty.mp hnil), Schema.validated_eq_some]
    constructor
    · rintro ⟨rfl, hnodup⟩
      exact ⟨rfl, hnodup, fun h => absurd h hnil⟩
    · rintro ⟨rfl, hnodup, -⟩
      exact ⟨rfl, hnodup⟩

theorem aggregateExec_iff {groupExprs : List (Expressions.LogicalExpr Func Model Series)}
    (hs : aggregateSchema planned groupExprs aggExprs = some s) :
    (aggregateExec planned frame groupExprs aggExprs).map Schema.columnNames = some s.columnNames ↔
      FollowsAggregate planned frame groupExprs aggExprs := by
  obtain ⟨-, hs⟩ := Option.ite_none_right_eq_some.mp hs
  obtain ⟨plannedGroups, hplannedGroups, hs⟩ := Option.bind_eq_some_iff.mp hs
  obtain ⟨plannedAggs, hplannedAggs, hs⟩ := Option.bind_eq_some_iff.mp hs
  obtain ⟨rfl, hnodup⟩ := Schema.validated_eq_some.mp hs
  rw [columnNames_append, columnNames_of_toColumnField hplannedGroups, columnNames_of_aggField hplannedAggs] at hnodup ⊢
  constructor
  · intro h
    obtain ⟨f, hf, hnames⟩ := Option.map_eq_some_iff.mp h
    obtain ⟨groups, aggs, hgroups, haggs, rfl, -, hdummy⟩ := aggregateExec_eq_some.mp hf
    rw [columnNames_append, columnNames_of_convertedField hgroups, columnNames_of_convertedAgg haggs,
      List.append_cancel_right_eq, map_fieldName_eq_iff] at hnames
    refine ⟨fun e he => ⟨hnames e he, ?_⟩, fun agg hagg => ?_, hdummy⟩
    · exact exists_convertedField.mp (Rows.mapM_isSome.mp ⟨groups, hgroups⟩ e he)
    · exact exists_convertedAgg.mp (Rows.mapM_isSome.mp ⟨aggs, haggs⟩ agg hagg)
  · rintro ⟨hgroups, haggs, hdummy⟩
    obtain ⟨groups, hgroupsMade⟩ := Rows.mapM_isSome.mpr fun e he => exists_convertedField.mpr (hgroups e he).2
    obtain ⟨aggs, haggsMade⟩ := Rows.mapM_isSome.mpr fun agg hagg => exists_convertedAgg.mpr (haggs agg hagg)
    have hnames : Schema.columnNames (groups ++ aggs) = groupExprs.map columnFieldName ++ aggExprs.map Prod.fst := by
      rw [columnNames_append, columnNames_of_convertedField hgroupsMade, columnNames_of_convertedAgg haggsMade,
        map_fieldName_eq_iff.mpr fun e he => (hgroups e he).1]
    exact Option.map_eq_some_iff.mpr
      ⟨_, aggregateExec_eq_some.mpr ⟨groups, aggs, hgroupsMade, haggsMade, rfl, hnames ▸ hnodup, hdummy⟩, hnames⟩

end

/-! ## Plans -/

namespace Plan

/-- What a node needs of the frames of its inputs. -/
def FollowsPlan : Plan Func Model Series → Prop
  | .source _ => True
  | .projection input exprs =>
    ∃ planned frame, input.schema = some planned ∧ input.execute = some frame ∧ FollowsProjection planned frame exprs
  | .filter _ _ => True
  | .union inputs => ∃ frames, executeAll inputs = some frames ∧ FollowsUnion frames
  | .limit _ _ => True
  | .sort _ _ => True
  | .explode input expr _ =>
    ∃ planned frame, input.schema = some planned ∧ input.execute = some frame ∧ FollowsExplode planned frame expr
  | .explodeWithIndex .. => False
  | .unnest input colNames =>
    ∃ planned frame, input.schema = some planned ∧ input.execute = some frame ∧ FollowsUnnest planned frame colNames
  | .aggregate input groupExprs aggExprs =>
    ∃ planned frame, input.schema = some planned ∧ input.execute = some frame ∧
      FollowsAggregate planned frame groupExprs aggExprs

variable {p : Plan Func Model Series}

/-- The frame of an input that has the columns of its schema. -/
theorem exists_frame {planned : Schema} (hplanned : p.schema = some planned)
    (hagrees : p.Agrees) : ∃ frame, p.execute = some frame ∧ frame.columnNames = planned.columnNames := by
  rw [Agrees, hplanned, Option.map_some] at hagrees
  exact Option.map_eq_some_iff.mp hagrees

/-- A unary node has the planned columns exactly when it follows its plan. -/
theorem unary_iff {input : Plan Func Model Series} {planned frame : Schema} {P : Schema → Schema → Prop}
    (hplanned : input.schema = some planned) (hframe : input.execute = some frame) :
    (∃ planned frame, input.schema = some planned ∧ input.execute = some frame ∧ P planned frame) ↔ P planned frame := by
  constructor
  · rintro ⟨planned', frame', h, h', hP⟩
    obtain rfl := Option.some_inj.mp (hplanned.symm.trans h)
    obtain rfl := Option.some_inj.mp (hframe.symm.trans h')
    exact hP
  · intro hP
    exact ⟨planned, frame, hplanned, hframe, hP⟩

omit [Signatures Func Model Series] in
theorem self_mem_subplans (p : Plan Func Model Series) : p ∈ p.subplans := by
  cases p <;> exact List.mem_cons_self

omit [Signatures Func Model Series] in
theorem mem_subplansList {ps : List (Plan Func Model Series)} (hp : p ∈ ps) :
    p ∈ subplansList ps := by
  induction ps with
  | nil => cases hp
  | cons q ps ih =>
    rcases List.mem_cons.mp hp with rfl | hp
    · exact List.mem_append_left _ (self_mem_subplans p)
    · exact List.mem_append_right _ (ih hp)

/-- A node over plans that agree. -/
theorem forall_cons_iff {rest : List (Plan Func Model Series)}
    (hrest : (∀ q ∈ rest, q.Agrees) ↔ ∀ q ∈ rest, q.FollowsPlan)
    (hnode : (∀ q ∈ rest, q.Agrees) → (p.Agrees ↔ p.FollowsPlan)) :
    (∀ q ∈ p :: rest, q.Agrees) ↔ ∀ q ∈ p :: rest, q.FollowsPlan := by
  rw [List.forall_mem_cons, List.forall_mem_cons, and_comm, and_comm (a := p.FollowsPlan), ← hrest]
  exact and_congr_right hnode

theorem agrees_iff_of_execute {s : Schema} {f : Option Schema} (hs : p.schema = some s)
    (hf : p.execute = f) : p.Agrees ↔ f.map Schema.columnNames = some s.columnNames := by
  rw [Agrees, hs, hf, Option.map_some]

theorem bind_pair {α β γ : Type} {x : Option α} {y : Option β} {a : α} {b : β} (hx : x = some a) (hy : y = some b)
    (f : α → β → Option γ) : (x.bind fun a => y.bind fun b => f a b) = f a b := by
  rw [hx, Option.bind_some, hy, Option.bind_some]

/-- A node that keeps the frame of its input. -/
theorem agrees_of_same {input : Plan Func Model Series} {s : Schema} (hs : p.schema = some s)
    (hinput : input.schema = some s) (hexecute : p.execute = input.execute) (hagrees : input.Agrees) : p.Agrees := by
  rw [Agrees, hs, hexecute, ← hinput]
  exact hagrees

theorem executeAll_of_agrees {ps : List (Plan Func Model Series)} {ss : List Schema} (hss : schemas ps = some ss)
    (hagrees : ∀ p ∈ ps, p.Agrees) :
    ∃ frames, executeAll ps = some frames ∧ List.Forall₂ (fun f s => f.columnNames = s.columnNames) frames ss := by
  induction ps generalizing ss with
  | nil =>
    cases hss
    exact ⟨[], rfl, List.Forall₂.nil⟩
  | cons p ps ih =>
    obtain ⟨s, hs, hss⟩ := Option.bind_eq_some_iff.mp hss
    obtain ⟨ss', hss', rfl⟩ := Option.map_eq_some_iff.mp hss
    obtain ⟨frame, hframe, hnames⟩ := exists_frame hs (hagrees p List.mem_cons_self)
    obtain ⟨frames, hframes, hall⟩ := ih hss' fun q hq => hagrees q (List.mem_cons_of_mem _ hq)
    refine ⟨frame :: frames, ?_, List.Forall₂.cons hnames hall⟩
    show ((execute p).bind fun frame => (executeAll ps).map fun frames => frame :: frames) = _
    rw [hframe, hframes]
    rfl

theorem union_iff {inputs : List (Plan Func Model Series)} {s : Schema} (hs : (union inputs).schema = some s)
    (hagrees : ∀ p ∈ inputs, p.Agrees) : (union inputs).Agrees ↔ (union inputs).FollowsPlan := by
  obtain ⟨ss, hss, hunion⟩ := Option.bind_eq_some_iff.mp hs
  obtain ⟨frames, hframes, hall⟩ := executeAll_of_agrees hss hagrees
  have hexecute : (union inputs).execute = unionExec frames := by
    show (executeAll inputs).bind unionExec = _
    rw [hframes]
    rfl
  rw [agrees_iff_of_execute hs hexecute]
  constructor
  · intro h
    obtain ⟨f, hf, -⟩ := Option.map_eq_some_iff.mp h
    refine ⟨frames, hframes, ?_⟩
    unfold unionExec at hf
    split at hf
    next left right => exact ⟨left, right, rfl, (Option.ite_none_right_eq_some.mp hf).1⟩
    next => cases hf
  · rintro ⟨frames', hframes', left, right, rfl, htypes⟩
    obtain rfl := Option.some_inj.mp (hframes.symm.trans hframes')
    have hexec : unionExec [left, right] = some left := if_pos htypes
    rw [hexec]
    cases hall with
    | cons hleft _ =>
      obtain ⟨-, hunion⟩ := Option.ite_none_right_eq_some.mp hunion
      cases hunion
      exact congrArg some hleft

mutual

/-- **All plans in a plan have the columns of their schemas exactly when all of them follow their plan.** -/
theorem agrees_iff : ∀ (p : Plan Func Model Series) (s : Schema), p.schema = some s →
    ((∀ q ∈ p.subplans, q.Agrees) ↔ ∀ q ∈ p.subplans, q.FollowsPlan)
  | .source schema, s, hs => by
    obtain ⟨rfl, -⟩ := Schema.validated_eq_some.mp hs
    refine forall_cons_iff (by simp) fun _ => iff_of_true ?_ trivial
    rw [Agrees, hs]
    rfl
  | .projection input exprs, s, hs => by
    obtain ⟨planned, hplanned, hnode⟩ := Option.bind_eq_some_iff.mp hs
    refine forall_cons_iff (agrees_iff input planned hplanned) fun hagrees => ?_
    obtain ⟨frame, hframe, -⟩ := exists_frame hplanned (hagrees input (self_mem_subplans input))
    have hexecute : (projection input exprs).execute = projectionExec planned frame exprs :=
      bind_pair hplanned hframe _
    rw [agrees_iff_of_execute hs hexecute, projectionExec_iff hnode]
    exact (unary_iff (P := fun planned frame => FollowsProjection planned frame exprs) hplanned hframe).symm
  | .filter input predicate, s, hs => by
    obtain ⟨planned, hplanned, hnode⟩ := Option.bind_eq_some_iff.mp hs
    obtain ⟨-, hnode⟩ := Option.ite_none_right_eq_some.mp hnode
    cases hnode
    refine forall_cons_iff (agrees_iff input _ hplanned) fun hagrees => iff_of_true ?_ trivial
    exact agrees_of_same hs hplanned rfl (hagrees input (self_mem_subplans input))
  | .union inputs, s, hs => by
    obtain ⟨ss, hss, -⟩ := Option.bind_eq_some_iff.mp hs
    refine forall_cons_iff (agreesAll_iff inputs ss hss) fun hagrees => union_iff hs fun p hp => ?_
    exact hagrees p (mem_subplansList hp)
  | .limit input n, s, hs => by
    refine forall_cons_iff (agrees_iff input s hs) fun hagrees => iff_of_true ?_ trivial
    exact agrees_of_same hs hs rfl (hagrees input (self_mem_subplans input))
  | .sort input sortExprs, s, hs => by
    refine forall_cons_iff (agrees_iff input s hs) fun hagrees => iff_of_true ?_ trivial
    exact agrees_of_same hs hs rfl (hagrees input (self_mem_subplans input))
  | .explode input expr keepNullAndEmpty, s, hs => by
    obtain ⟨planned, hplanned, hnode⟩ := Option.bind_eq_some_iff.mp hs
    refine forall_cons_iff (agrees_iff input planned hplanned) fun hagrees => ?_
    obtain ⟨frame, hframe, hnames⟩ := exists_frame hplanned (hagrees input (self_mem_subplans input))
    have hexecute : (explode input expr keepNullAndEmpty).execute = explodeExec planned frame expr :=
      bind_pair hplanned hframe _
    rw [agrees_iff_of_execute hs hexecute, explodeExec_iff hnames hnode]
    exact (unary_iff (P := fun planned frame => FollowsExplode planned frame expr) hplanned hframe).symm
  | .explodeWithIndex input expr indexName valueName keepNullAndEmpty, s, hs => by
    obtain ⟨planned, hplanned, hnode⟩ := Option.bind_eq_some_iff.mp hs
    refine forall_cons_iff (agrees_iff input planned hplanned) fun hagrees => ?_
    obtain ⟨frame, hframe, hnames⟩ := exists_frame hplanned (hagrees input (self_mem_subplans input))
    have hexecute : (explodeWithIndex input expr indexName valueName keepNullAndEmpty).execute =
        explodeWithIndexExec planned frame expr indexName valueName :=
      bind_pair hplanned hframe _
    rw [agrees_iff_of_execute hs hexecute]
    exact iff_of_false (explodeWithIndexExec_ne hnames hnode) id
  | .unnest input colNames, s, hs => by
    obtain ⟨planned, hplanned, hnode⟩ := Option.bind_eq_some_iff.mp hs
    refine forall_cons_iff (agrees_iff input planned hplanned) fun hagrees => ?_
    obtain ⟨frame, hframe, -⟩ := exists_frame hplanned (hagrees input (self_mem_subplans input))
    have hexecute : (unnest input colNames).execute = unnestExec frame colNames := by
      show (execute input).bind _ = _
      rw [hframe, Option.bind_some]
    rw [agrees_iff_of_execute hs hexecute, unnestExec_iff hnode]
    exact (unary_iff (P := fun planned frame => FollowsUnnest planned frame colNames) hplanned hframe).symm
  | .aggregate input groupExprs aggExprs, s, hs => by
    obtain ⟨planned, hplanned, hnode⟩ := Option.bind_eq_some_iff.mp hs
    refine forall_cons_iff (agrees_iff input planned hplanned) fun hagrees => ?_
    obtain ⟨frame, hframe, -⟩ := exists_frame hplanned (hagrees input (self_mem_subplans input))
    have hexecute : (aggregate input groupExprs aggExprs).execute =
        aggregateExec planned frame groupExprs aggExprs :=
      bind_pair hplanned hframe _
    rw [agrees_iff_of_execute hs hexecute, aggregateExec_iff hnode]
    exact (unary_iff (P := fun planned frame => FollowsAggregate planned frame groupExprs aggExprs) hplanned hframe).symm

theorem agreesAll_iff : ∀ (ps : List (Plan Func Model Series)) (ss : List Schema), schemas ps = some ss →
    ((∀ q ∈ subplansList ps, q.Agrees) ↔ ∀ q ∈ subplansList ps, q.FollowsPlan)
  | [], _, _ => by simp [subplansList]
  | p :: ps, ss, hss => by
    obtain ⟨s, hs, hss⟩ := Option.bind_eq_some_iff.mp hss
    obtain ⟨ss', hss', -⟩ := Option.map_eq_some_iff.mp hss
    show (∀ q ∈ subplans p ++ subplansList ps, q.Agrees) ↔ ∀ q ∈ subplans p ++ subplansList ps, q.FollowsPlan
    rw [List.forall_mem_append, List.forall_mem_append]
    exact and_congr (agrees_iff p s hs) (agreesAll_iff ps ss' hss')

end

end Plan

/-! ## Examples -/

namespace PlanExamples

open StructExamples (column)

attribute [local instance] StructExamples.instSignaturesEmpty

/-- A table of ids and their tags. -/
def tagged : Plan Empty Empty Empty := .source [⟨"id", .integerType⟩, ⟨"tags", .arrayType .stringType⟩]

/-- `explode(col("tags").alias("tag"))`. -/
def exploded : Plan Empty Empty Empty := .explode tagged (.node (.alias "tag") [column "tags"]) false

/-- An explode of an alias adds a column, here and where it is limited. -/
theorem exploded_agrees :
    (Plan.limit exploded 10).schema =
        some [⟨"id", .integerType⟩, ⟨"tags", .arrayType .stringType⟩, ⟨"tag", .stringType⟩] ∧
      ∀ q ∈ (Plan.limit exploded 10).subplans, q.Agrees := by
  refine ⟨by decide, (Plan.agrees_iff (.limit exploded 10)
    [⟨"id", .integerType⟩, ⟨"tags", .arrayType .stringType⟩, ⟨"tag", .stringType⟩] (by decide)).mpr ?_⟩
  intro q hq
  have hnodes : q ∈ [.limit exploded 10, exploded, tagged] := hq
  simp only [List.mem_cons, List.not_mem_nil, or_false] at hnodes
  rcases hnodes with rfl | rfl | rfl
  · trivial
  · refine ⟨_, _, rfl, rfl, Or.inl ⟨rfl, .stringType, ?_⟩⟩
    decide
  · trivial

/-- `explode_with_index("tags")`. -/
def indexed : Plan Empty Empty Empty := .explodeWithIndex tagged (column "tags") "pos" "col" false

/-- The positions are planned first and made last, and the exploded column is planned and not made. -/
theorem indexed_not_agrees :
    (¬ ∀ q ∈ indexed.subplans, q.Agrees) ∧
      indexed.schema.map Schema.columnNames = some ["pos", "id", "tags", "col"] ∧
      indexed.execute.map Schema.columnNames = some ["id", "col", "pos"] := by
  have hschema : indexed.schema.map Schema.columnNames = some ["pos", "id", "tags", "col"] := by decide
  have hexecute : indexed.execute.map Schema.columnNames = some ["id", "col", "pos"] := by decide
  refine ⟨fun h => ?_, hschema, hexecute⟩
  have hagrees : indexed.execute.map Schema.columnNames = indexed.schema.map Schema.columnNames :=
    h indexed (Plan.self_mem_subplans indexed)
  exact absurd hagrees (by decide)

end PlanExamples

end PlanSchema

end Fenic
