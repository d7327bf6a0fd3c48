import Fenic.Expressions.RowWise
import Fenic.Expressions.StructFields

/-!
# `PlanSchema.Plan` — logical plans and their schemas

The plans that projections, filters, unions, limits, sorts, explodes, unnests and aggregates make over sources, and the
schema that each builds and checks. A schema is `none` where the constructor raises.

A plan is made through `from_session_state`, so that every node builds its own schema. The check of the context of
`semantic.reduce` in an aggregate is left out: it reads no columns and rejects plans only.

What columns the frames have that the physical operators make, and of what types. A frame is `none` where an operator
raises on the names or the types of columns. What an operator does with the rows, and whether it raises on them, is left
out; a source makes a frame of its schema.
-/

namespace Fenic

/-! ## Columns -/

namespace Schema

/-- The schema with a column in the place of the one of its name, or at the end. -/
def withColumn (s : Schema) (f : ColumnField) : Schema :=
  if f.name ∈ s.columnNames then s.map fun g => if g.name = f.name then f else g else s ++ [f]

/-- The fields of a struct as columns. -/
def structColumns (fields : List (String × DataType)) : Schema := fields.map fun f => ⟨f.1, f.2⟩

/-- The columns with the fields of structs in their places. -/
def unnest (s : Schema) (names : List String) : Option Schema :=
  (s.mapM fun f =>
    if f.name ∈ names then
      match f.dataType with
      | .structType fields => some (structColumns fields)
      | _ => none
    else some [f]).map List.flatten

/-- `_validate_schema`. -/
def validated (s : Schema) : Option Schema := if s.columnNames.Nodup then some s else none

/-- Equality of the dicts of names and types. -/
def SameFields (s t : Schema) : Prop := (∀ f ∈ s, f ∈ t) ∧ ∀ f ∈ t, f ∈ s

instance (s t : Schema) : Decidable (SameFields s t) := inferInstanceAs (Decidable (_ ∧ _))

end Schema

namespace Expressions.LogicalExpr

variable {Func Model Series : Type} [Signatures Func Model Series]

/-- The name of `to_column_field`. A branch of a case passes on the field of its value. -/
def columnFieldName : LogicalExpr Func Model Series → String
  | .node (.alias name) _ => name
  | .node (.unparameterized .when) [_, value] => columnFieldName value
  | .node (.unparameterized .when) [_, _, value] => columnFieldName value
  | .node (.unparameterized .otherwise) [_, value] => columnFieldName value
  | e => e.printed

/-- `when` and `otherwise`. -/
def isCase : LogicalExpr Func Model Series → Bool
  | .node (.unparameterized .when) [_, _] => true
  | .node (.unparameterized .when) [_, _, _] => true
  | .node (.unparameterized .otherwise) [_, _] => true
  | _ => false

/-- `to_column_field`. -/
def toColumnField (schema : Schema) (e : LogicalExpr Func Model Series) : Option ColumnField :=
  (e.logicalType schema).map fun t => ⟨e.columnFieldName, t⟩

/-- `_validate_groupby_expr`. -/
def validGroup (e : LogicalExpr Func Model Series) : Bool :=
  e.subexprs.all fun s => !s.head.isAggregate && !s.head.isSort

end Expressions.LogicalExpr

namespace PlanSchema

open Expressions

/-- A logical plan. -/
inductive Plan (Func Model Series : Type) where
  | source (schema : Schema)
  | projection (input : Plan Func Model Series) (exprs : List (Expressions.LogicalExpr Func Model Series))
  | filter (input : Plan Func Model Series) (predicate : Expressions.LogicalExpr Func Model Series)
  | union (inputs : List (Plan Func Model Series))
  | limit (input : Plan Func Model Series) (n : Nat)
  | sort (input : Plan Func Model Series) (sortExprs : List (Expressions.LogicalExpr Func Model Series))
  | explode (input : Plan Func Model Series) (expr : Expressions.LogicalExpr Func Model Series) (keepNullAndEmpty : Bool)
  | explodeWithIndex (input : Plan Func Model Series) (expr : Expressions.LogicalExpr Func Model Series)
      (indexName valueName : String) (keepNullAndEmpty : Bool)
  | unnest (input : Plan Func Model Series) (colNames : List String)
  /-- The aggregates are aliases. -/
  | aggregate (input : Plan Func Model Series) (groupExprs : List (Expressions.LogicalExpr Func Model Series))
      (aggExprs : List (String × Expressions.LogicalExpr Func Model Series))

section

variable {Func Model Series : Type} [Signatures Func Model Series]

/-- `validate_scalar_expr` passes. -/
def isScalar (e : Expressions.LogicalExpr Func Model Series) (functionName : String) : Bool :=
  match Expressions.validateScalarExpr e functionName with
  | .ok _ => true
  | .error _ => false

/-! ## Schemas of the nodes -/

/-- `Projection`. -/
def projectionSchema (schema : Schema) (exprs : List (Expressions.LogicalExpr Func Model Series)) : Option Schema :=
  if exprs.all fun e => isScalar e "projection" then
    (exprs.mapM (Expressions.LogicalExpr.toColumnField schema)).bind Schema.validated
  else none

/-- `Filter`. -/
def filterSchema (schema : Schema) (predicate : Expressions.LogicalExpr Func Model Series) : Option Schema :=
  if isScalar predicate "filter" ∧ predicate.logicalType schema = some .booleanType then some schema else none

/-- `Union`. -/
def unionSchema : List Schema → Option Schema
  | [] => none
  | schema :: schemas => if ∀ s ∈ schemas, s.SameFields schema then some schema else none

/-- `Explode`. -/
def explodeSchema (schema : Schema) (expr : Expressions.LogicalExpr Func Model Series) : Option Schema :=
  if isScalar expr "explode" then
    match expr.toColumnField schema with
    | some ⟨name, .arrayType elementType⟩ => (schema.withColumn ⟨name, elementType⟩).validated
    | _ => none
  else none

/-- The columns after the index in `ExplodeWithIndex`: an exploded column of another name than its values stays. -/
def explodedColumns (schema : Schema) (name valueName : String) (elementType : DataType) : Schema :=
  (schema.flatMap fun f =>
    if f.name = name then
      if valueName ≠ f.name then [f, ⟨valueName, elementType⟩] else [⟨valueName, elementType⟩]
    else [f]) ++
      if name ∈ schema.columnNames then [] else [⟨valueName, elementType⟩]

/-- `ExplodeWithIndex`. -/
def explodeWithIndexSchema (schema : Schema) (expr : Expressions.LogicalExpr Func Model Series)
    (indexName valueName : String) : Option Schema :=
  if isScalar expr "explode_with_index" then
    match expr.toColumnField schema with
    | some ⟨name, .arrayType elementType⟩ =>
      Schema.validated (⟨indexName, .integerType⟩ :: explodedColumns schema name valueName elementType)
    | _ => none
  else none

/-- `to_column_field` of an aggregate under its alias. -/
def aggField (schema : Schema) (agg : String × Expressions.LogicalExpr Func Model Series) : Option ColumnField :=
  (agg.2.logicalType schema).map fun t => ⟨agg.1, t⟩

/-- `Aggregate`. -/
def aggregateSchema (schema : Schema) (groupExprs : List (Expressions.LogicalExpr Func Model Series))
    (aggExprs : List (String × Expressions.LogicalExpr Func Model Series)) : Option Schema :=
  if (aggExprs.all fun agg => agg.2.head.isAggregate) ∧ groupExprs.all Expressions.LogicalExpr.validGroup then
    (groupExprs.mapM (Expressions.LogicalExpr.toColumnField schema)).bind fun groups =>
      (aggExprs.mapM (aggField schema)).bind fun aggs => Schema.validated (groups ++ aggs)
  else none

namespace Plan

mutual

/-- `schema()` of a plan whose constructors have not raised. -/
def schema : Plan Func Model Series → Option Schema
  | .source schema => schema.validated
  | .projection input exprs => (schema input).bind fun s => projectionSchema s exprs
  | .filter input predicate => (schema input).bind fun s => filterSchema s predicate
  | .union inputs => (schemas inputs).bind unionSchema
  | .limit input _ => schema input
  | .sort input _ => schema input
  | .explode input expr _ => (schema input).bind fun s => explodeSchema s expr
  | .explodeWithIndex input expr indexName valueName _ =>
    (schema input).bind fun s => explodeWithIndexSchema s expr indexName valueName
  | .unnest input colNames => (schema input).bind fun s => (s.unnest colNames).bind Schema.validated
  | .aggregate input groupExprs aggExprs => (schema input).bind fun s => aggregateSchema s groupExprs aggExprs

def schemas : List (Plan Func Model Series) → Option (List Schema)
  | [] => some []
  | p :: ps => (schema p).bind fun s => (schemas ps).map fun ss => s :: ss

end

end Plan

end

/-! ## The columns of the frames -/

variable {Func Model Series : Type} [Signatures Func Model Series]

/-! ## Physical operators -/

/-- `convert`: the alias, the name of the column, or the printed form. -/
def convertedField (planned frame : Schema) (e : Expressions.LogicalExpr Func Model Series) : Option ColumnField :=
  (e.engineTypeAt planned frame false).map fun t => ⟨e.fieldName, t⟩

/-- `ProjectionExec`: the engine selects no two columns of one name. -/
def projectionExec (planned frame : Schema) (exprs : List (Expressions.LogicalExpr Func Model Series)) : Option Schema :=
  (exprs.mapM (convertedField planned frame)).bind Schema.validated

/-- `UnionExec`: the columns of the right frame are put in the order of the left one. -/
def unionExec : List Schema → Option Schema
  | [left, right] =>
    if left.mapM (fun f => (columnType right f.name).map fun t => ⟨f.name, t⟩) = some left then some left else none
  | _ => none

/-- `ExplodeExec`. -/
def explodeExec (planned frame : Schema) (expr : Expressions.LogicalExpr Func Model Series) : Option Schema :=
  (convertedField planned frame expr).bind fun column =>
    match columnType (frame.withColumn column) expr.columnFieldName with
    | some (.arrayType elementType) => some ((frame.withColumn column).withColumn ⟨expr.columnFieldName, elementType⟩)
    | _ => none

/-- `rename`, which takes no name that another column has. -/
def rename (frame : Schema) (name newName : String) : Option Schema :=
  if newName = name then some frame
  else if newName ∈ frame.columnNames then none
  else some (frame.map fun f => if f.name = name then ⟨newName, f.dataType⟩ else f)

/-- `ExplodeWithIndexExec`. -/
def explodeWithIndexExec (planned frame : Schema) (expr : Expressions.LogicalExpr Func Model Series)
    (indexName valueName : String) : Option Schema :=
  (convertedField planned frame expr).bind fun column =>
    match columnType (frame.withColumn column) expr.columnFieldName with
    | some (.arrayType elementType) =>
      -- the positions are a column of lists, exploded together with the values
      rename (((frame.withColumn column).withColumn ⟨expr.columnFieldName, elementType⟩).withColumn
        ⟨indexName, .integerType⟩) expr.columnFieldName valueName
    | _ => none

/-- `UnnestExec`. -/
def unnestExec (frame : Schema) (colNames : List String) : Option Schema :=
  if ∀ name ∈ colNames, name ∈ frame.columnNames then (frame.unnest colNames).bind Schema.validated else none

/-- The group of an aggregate without groups. -/
def dummyGroup : ColumnField := ⟨"_dummy_group_id", .integerType⟩

/-- A converted aggregate. -/
def convertedAgg (planned frame : Schema) (agg : String × Expressions.LogicalExpr Func Model Series) : Option ColumnField :=
  (agg.2.engineTypeAt planned frame false).map fun t => ⟨agg.1, t⟩

/-- `AggregateExec`. -/
def aggregateExec (planned frame : Schema) (groupExprs : List (Expressions.LogicalExpr Func Model Series))
    (aggExprs : List (String × Expressions.LogicalExpr Func Model Series)) : Option Schema :=
  (groupExprs.mapM (convertedField planned frame)).bind fun groups =>
    (aggExprs.mapM (convertedAgg planned frame)).bind fun aggs =>
      if groups = [] then (Schema.validated (dummyGroup :: aggs)).map List.tail else Schema.validated (groups ++ aggs)

/-! ## Execution -/

namespace Plan

mutual

/-- The frame of the physical plan. -/
def execute : Plan Func Model Series → Option Schema
  | .source schema => some schema
  | .projection input exprs =>
    (schema input).bind fun planned => (execute input).bind fun frame => projectionExec planned frame exprs
  | .filter input _ => execute input
  | .union inputs => (executeAll inputs).bind unionExec
  | .limit input _ => execute input
  | .sort input _ => execute input
  | .explode input expr _ =>
    (schema input).bind fun planned => (execute input).bind fun frame => explodeExec planned frame expr
  | .explodeWithIndex input expr indexName valueName _ =>
    (schema input).bind fun planned =>
      (execute input).bind fun frame => explodeWithIndexExec planned frame expr indexName valueName
  | .unnest input colNames => (execute input).bind fun frame => unnestExec frame colNames
  | .aggregate input groupExprs aggExprs =>
    (schema input).bind fun planned =>
      (execute input).bind fun frame => aggregateExec planned frame groupExprs aggExprs

def executeAll : List (Plan Func Model Series) → Option (List Schema)
  | [] => some []
  | p :: ps => (execute p).bind fun frame => (executeAll ps).map fun frames => frame :: frames

end

mutual

/-- The plan and all plans in it. -/
def subplans : Plan Func Model Series → List (Plan Func Model Series)
  | .source schema => [.source schema]
  | .projection input exprs => .projection input exprs :: subplans input
  | .filter input predicate => .filter input predicate :: subplans input
  | .union inputs => .union inputs :: subplansList inputs
  | .limit input n => .limit input n :: subplans input
  | .sort input sortExprs => .sort input sortExprs :: subplans input
  | .explode input expr keepNullAndEmpty => .explode input expr keepNullAndEmpty :: subplans input
  | .explodeWithIndex input expr indexName valueName keepNullAndEmpty =>
    .explodeWithIndex input expr indexName valueName keepNullAndEmpty :: subplans input
  | .unnest input colNames => .unnest input colNames :: subplans input
  | .aggregate input groupExprs aggExprs => .aggregate input groupExprs aggExprs :: subplans input

def subplansList : List (Plan Func Model Series) → List (Plan Func Model Series)
  | [] => []
  | p :: ps => subplans p ++ subplansList ps

end

/-- The frame has the columns of the schema. -/
def Agrees (p : Plan Func Model Series) : Prop :=
  p.execute.map Schema.columnNames = p.schema.map Schema.columnNames

end Plan

end PlanSchema

end Fenic
