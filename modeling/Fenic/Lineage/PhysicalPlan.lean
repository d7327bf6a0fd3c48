import Fenic.Lib.Rows
import Mathlib.Logic.Function.Basic

/-!
# `Lineage.PhysicalPlan` — physical plans and their execution

The frame operations that the physical operators are made of, as the data frame engine documents them. Where
the engine leaves a choice open (which of several duplicates is kept, in which order groups come), it is
fixed here, and made the same way every time.

The operators of `_backends/local/physical_plan` that support lineage: the sources, ten unary operators, the
union and the three joins. `Plan.execute` runs a plan bottom-up and writes what a persisted operator computed
to the intermediate store; metrics are left out. What a semantic operator asks of a model is a function of
the cells it asks about.

## Contents
- **Cells and frames.** A row assigns a cell to every column name; only the names of the frame's columns
  count. Row ids are cells of a kind of their own: a fresh `uuid4` is not a value of the data.
- **Expressions.** An expression carries the column names it reads and the proof that it reads nothing else.
- **Operations.** Each raises (is `none`) when a column it names is missing or a result has one name twice.
- **Ingestion.** `_build_target_dtype` and `apply_ingestion_coercions`, for in-memory sources.
- **Unary operators.** One `execute_node` per class.
- **Binary operators.** The union, and the joins as instances of one `JoinOp`.
- **Plans.** `Plan.execute`.
-/

namespace Fenic

namespace Lineage

/-- What is asked of the values of a column: a truth value, the items of a list value (none for any other
    value), the fields of a struct value, and the values that count rows. -/
class ColumnValue (V : Type) where
  isTrue : V → Bool
  items : V → List (Option V)
  field : String → V → Option V
  index : Nat → V

/-- Text is no list and has no fields. -/
instance : ColumnValue String where
  isTrue := fun text => text == "true"
  items := fun _ => []
  field := fun _ _ => none
  index := toString

variable {V : Type}

/-! ## Cells and frames -/

inductive Cell (V : Type) where
  | null
  | val (v : V)
  | rowId (n : Nat)
  deriving DecidableEq

def Cell.ofOption : Option V → Cell V
  | none => .null
  | some v => .val v

/-- The data in a cell; row ids are no data. -/
def Cell.data : Cell V → Option V
  | .val v => some v
  | _ => none

abbrev Row (V : Type) := String → Cell V

/-- A `pl.DataFrame`. -/
structure Frame (V : Type) where
  columns : List String
  rows : List (Row V)

/-- Frames that hold data only: what sources read and the intermediate store keeps. -/
structure DataFrame (V : Type) where
  columns : List String
  rows : List (String → Option V)
  nodup : columns.Nodup := by decide

def DataFrame.toFrame (df : DataFrame V) : Frame V :=
  ⟨df.columns, df.rows.map (fun r name => Cell.ofOption (r name))⟩

def Frame.toData? (f : Frame V) : Option (DataFrame V) :=
  if h : f.columns.Nodup then some ⟨f.columns, f.rows.map (fun r name => (r name).data), h⟩ else none

/-- The rows of a frame as tuples, column by column. -/
def Frame.tuples (f : Frame V) : List (List (Cell V)) :=
  f.rows.map (fun r => f.columns.map r)

/-- Two frames are equal as bags of rows. -/
def Frame.BagEq (f g : Frame V) : Prop :=
  f.columns = g.columns ∧ f.tuples.Perm g.tuples

/-! ## Expressions -/

/-- Two rows agree on some columns. -/
def Agrees (columns : List String) (r r' : Row V) : Prop :=
  ∀ name ∈ columns, r' name = r name

theorem Agrees.mono {columns columns' : List String} (hsub : columns' ⊆ columns) {r r' : Row V}
    (h : Agrees columns r r') : Agrees columns' r r' :=
  fun name hname => h name (hsub hname)

/-- A `pl.Expr` that is evaluated row by row: a plain column, or anything computed from columns. -/
inductive RowExpr (V : Type) where
  | column (name : String)
  | computed (name : String) (roots : List String) (eval : Row V → Cell V)
      (reads : ∀ r r' : Row V, Agrees roots r r' → eval r' = eval r)

namespace RowExpr

/-- `meta.output_name()`. -/
def name : RowExpr V → String
  | column name => name
  | computed name _ _ _ => name

/-- `meta.root_names()`. -/
def roots : RowExpr V → List String
  | column name => [name]
  | computed _ roots _ _ => roots

def eval : RowExpr V → Row V → Cell V
  | column name, r => r name
  | computed _ _ eval _, r => eval r

theorem eval_of_agrees (e : RowExpr V) {r r' : Row V} (h : Agrees e.roots r r') : e.eval r' = e.eval r := by
  cases e with
  | column name => exact h name (List.mem_singleton.mpr rfl)
  | computed name roots eval reads => exact reads r r' h

/-- `meta.is_column()`. -/
def isColumn : RowExpr V → Bool
  | column _ => true
  | computed _ _ _ _ => false

end RowExpr

/-- A `pl.Expr` that gives one value for the whole frame: a literal or an aggregate. -/
structure ReduceExpr (V : Type) where
  name : String
  roots : List String
  eval : List (Row V) → Cell V
  reads : ∀ rows rows' : List (Row V), List.Forall₂ (Agrees roots) rows rows' → eval rows' = eval rows

/-- An expression of a projection. A series literal of one value counts as a reduction, like any literal. -/
inductive Projection (V : Type) where
  | row (e : RowExpr V)
  | reduce (e : ReduceExpr V)
  | series (name : String) (values : List (Option V)) (long : 1 < values.length)

namespace Projection

def name : Projection V → String
  | row e => e.name
  | reduce e => e.name
  | series name _ _ => name

def roots : Projection V → List String
  | row e => e.roots
  | reduce e => e.roots
  | series _ _ _ => []

/-- The length of the result over `height` rows; one value is broadcast to any length. -/
def length? (height : Nat) : Projection V → Option Nat
  | row _ => some height
  | reduce _ => none
  | series _ values _ => some values.length

/-- The cell of row `i` of the result. -/
def cellAt (rows : List (Row V)) (i : Nat) : Projection V → Cell V
  | row e => (rows[i]?).elim .null e.eval
  | reduce e => e.eval rows
  | series _ values _ => ((values[i]?).map Cell.ofOption).getD .null

/-- A row that gives each projection's name the projection's cell. -/
def rowAt (ps : List (Projection V)) (rows : List (Row V)) (i : Nat) : Row V := fun name =>
  ((ps.find? (fun p => p.name == name)).map (cellAt rows i)).getD .null

end Projection

/-! ## Operations -/

namespace Frame

/-- The engine allows no two columns of one name. -/
def checkNames (f : Frame V) : Option (Frame V) :=
  if f.columns.Nodup then some f else none

/-- The number of rows of a selection, if its columns have one length: that of the long ones, or one. -/
def selectHeight (ps : List (Projection V)) (height : Nat) : Option Nat :=
  match ps.filterMap (Projection.length? height) with
  | [] => some 1
  | n :: ns => if ∀ m ∈ ns, m = n then some n else none

/-- `df.select(ps)`. -/
def select (ps : List (Projection V)) (f : Frame V) : Option (Frame V) :=
  if ∀ p ∈ ps, p.roots ⊆ f.columns then
    (selectHeight ps f.rows.length).bind (fun n =>
      checkNames ⟨ps.map Projection.name, (List.range n).map (Projection.rowAt ps f.rows)⟩)
  else none

/-- `df.filter(p)`. -/
def filter [ColumnValue V] (p : RowExpr V) (f : Frame V) : Option (Frame V) :=
  if p.roots ⊆ f.columns then
    some ⟨f.columns, f.rows.filter (fun r => match p.eval r with
      | .val v => ColumnValue.isTrue v
      | _ => false)⟩
  else none

/-- The columns after one was set. -/
def withName (columns : List String) (name : String) : List String :=
  if name ∈ columns then columns else columns ++ [name]

/-- `df.with_columns(e)`. -/
def withColumn (e : RowExpr V) (f : Frame V) : Option (Frame V) :=
  if e.roots ⊆ f.columns then
    some ⟨withName f.columns e.name, f.rows.map (fun r => Function.update r e.name (e.eval r))⟩
  else none

/-- `df.with_columns(pl.Series(name, cells))`. -/
def withSeries (name : String) (cells : List (Cell V)) (f : Frame V) : Option (Frame V) :=
  if cells.length = f.rows.length then
    some ⟨withName f.columns name, List.zipWith (fun r cell => Function.update r name cell) f.rows cells⟩
  else none

/-- `df.drop(name)`. -/
def drop (name : String) (f : Frame V) : Frame V :=
  ⟨f.columns.filter (· ≠ name), f.rows⟩

/-- `df.rename({old: new})`. -/
def rename (old new : String) (f : Frame V) : Option (Frame V) :=
  if old ∈ f.columns ∧ new ∉ f.columns then
    some ⟨f.columns.map (fun c => if c = old then new else c), f.rows.map (fun r => Function.update r new (r old))⟩
  else none

/-- The cells that a list cell explodes into; null and the empty list explode into null. -/
def explodeCell [ColumnValue V] : Cell V → List (Cell V)
  | .val v =>
    match ColumnValue.items v with
    | [] => [.null]
    | items => items.map Cell.ofOption
  | cell => [cell]

/-- `df.explode(name)`. -/
def explode [ColumnValue V] (name : String) (f : Frame V) : Option (Frame V) :=
  if name ∈ f.columns then
    some ⟨f.columns, f.rows.flatMap (fun r => (explodeCell (r name)).map (fun cell => Function.update r name cell))⟩
  else none

/-- `df.filter(pl.col(name).is_not_null())`. -/
def dropNulls (name : String) (f : Frame V) : Frame V :=
  ⟨f.columns, f.rows.filter (fun r => match r name with
    | .null => false
    | _ => true)⟩

/-- `df.limit(n)`. -/
def limit (n : Nat) (f : Frame V) : Frame V :=
  ⟨f.columns, f.rows.take n⟩

/-- `df.unique(subset)`; no subset means all columns. -/
def unique [DecidableEq V] (subset : Option (List String)) (f : Frame V) : Option (Frame V) :=
  let names := subset.getD f.columns
  if names ⊆ f.columns then some ⟨f.columns, Rows.uniqueBy (fun r => names.map r) f.rows⟩ else none

/-- `pl.concat([f, g], how="vertical")` of frames with the same columns. -/
def concat (f g : Frame V) : Option (Frame V) :=
  if g.columns = f.columns then some ⟨f.columns, f.rows ++ g.rows⟩ else none

end Frame

/-! ## Physical plans and their execution -/

/-! ## Ingestion -/

/-- The types of a column that the ingestion coercions tell apart. -/
inductive PolarsType where
  | array (inner : PolarsType) (width : Nat)
  | list (inner : PolarsType)
  | datetime (timeUnit : String) (timeZone : Option String)
  | struct (fields : List (String × PolarsType))
  | other (name : String)

/-- The logical types that steer them. -/
inductive LogicalType where
  | embedding (dimensions : Nat)
  | array (element : LogicalType)
  | struct (fields : List (String × LogicalType))
  | other

mutual

def PolarsType.eqb : PolarsType → PolarsType → Bool
  | .array inner width, .array inner' width' => inner.eqb inner' && width == width'
  | .list inner, .list inner' => inner.eqb inner'
  | .datetime timeUnit timeZone, .datetime timeUnit' timeZone' => timeUnit == timeUnit' && timeZone == timeZone'
  | .struct fields, .struct fields' => PolarsType.eqbFields fields fields'
  | .other name, .other name' => name == name'
  | _, _ => false

def PolarsType.eqbFields : List (String × PolarsType) → List (String × PolarsType) → Bool
  | [], [] => true
  | (name, dtype) :: fields, (name', dtype') :: fields' =>
    name == name' && dtype.eqb dtype' && PolarsType.eqbFields fields fields'
  | _, _ => false

end

def LogicalType.element? : LogicalType → Option LogicalType
  | .array element => some element
  | _ => none

def LogicalType.fields : LogicalType → List (String × LogicalType)
  | .struct fields => fields
  | _ => []

mutual

/-- `_build_target_dtype` with `coerce_array=True`. -/
def buildTargetDtype : PolarsType → Option LogicalType → PolarsType
  | _, some (.embedding dimensions) => .array (.other "Float32") dimensions
  | .array inner _, logical => .list (buildTargetDtype inner (logical.bind LogicalType.element?))
  | .list inner, logical => .list (buildTargetDtype inner (logical.bind LogicalType.element?))
  | .datetime _ _, _ => .datetime "us" (some "UTC")
  | .struct fields, logical => .struct (buildTargetFields fields ((logical.map LogicalType.fields).getD []))
  | .other name, _ => .other name

def buildTargetFields : List (String × PolarsType) → List (String × LogicalType) → List (String × PolarsType)
  | [], _ => []
  | (name, dtype) :: fields, logical =>
    (name, buildTargetDtype dtype (logical.lookup name)) :: buildTargetFields fields logical

end

/-- The engine's cast of a value to a type. -/
class PolarsCast (V : Type) where
  cast : PolarsType → V → Option V

/-- Text is cast to nothing but itself. -/
instance : PolarsCast String where
  cast := fun target text =>
    match target with
    | .other "String" => some text
    | _ => none

/-- The frame of an `InMemorySourceExec`, with the types of its columns and its logical schema. -/
structure TypedFrame (V : Type) where
  df : DataFrame V
  dtypes : List (String × PolarsType)
  schema : List (String × LogicalType)

namespace TypedFrame

/-- The entry of a column in `target_dtypes`: its target type, where that differs from its type. -/
def coercion? (source : TypedFrame V) (column : String) : Option PolarsType :=
  (source.dtypes.lookup column).bind (fun dtype =>
    let target := buildTargetDtype dtype (source.schema.lookup column)
    if target.eqb dtype then none else some target)

/-- `apply_ingestion_coercions`. -/
def applyIngestionCoercions [PolarsCast V] (source : TypedFrame V) : DataFrame V :=
  if ∀ column ∈ source.df.columns, source.coercion? column = none then source.df
  else
    ⟨source.df.columns, source.df.rows.map (fun r column =>
      match source.coercion? column with
      | some target => (r column).bind (PolarsCast.cast target)
      | none => r column), source.df.nodup⟩

end TypedFrame

/-! ## Unary operators -/

/-- The order that a sort puts rows into, given their keys: a permutation of the positions. -/
structure RowOrder (V : Type) where
  positions : List (List (Cell V)) → List Nat
  perm : ∀ keys, (positions keys).Perm (List.range keys.length)

inductive UnaryExec (V : Type) where
  | projection (projections : List (Projection V))
  | filter (predicate : RowExpr V)
  | explode (physicalExpr : RowExpr V) (colName : String) (keepNullAndEmpty : Bool)
  | explodeWithIndex (physicalExpr : RowExpr V) (colName indexName valueName : String)
      (keepNullAndEmpty : Bool)
  | limit (n : Nat)
  | dropDuplicates (subset : List String)
  | sort (cols : List (RowExpr V)) (order : RowOrder V)
  /-- The struct columns, with their fields, which the engine knows from their types. -/
  | unnest (structs : List (String × List String))
  | semanticCluster (byExpr : RowExpr V) (byExprName labelColumn : String)
      (cluster : List (Cell V) → List (Option V))
      (centroids : Option (String × (List (Cell V) → List (Option V))))
  | aggregate (groupExprs : List (RowExpr V)) (aggExprs : List (ReduceExpr V))

section

variable [ColumnValue V] [DecidableEq V]

/-- `_is_identity_projection`. -/
def isIdentityProjection (projections : List (Projection V)) (columns : List String) : Bool :=
  projections.length == columns.length &&
    (projections.zip columns).all (fun (projection, column) =>
      match projection with
      | .row e => e.isColumn && e.name == column
      | _ => false)

/-- `ProjectionExec.execute_node`, after `series_literal_checks`. -/
def ProjectionExec.executeNode (projections : List (Projection V)) (child : Frame V) : Option (Frame V) :=
  if projections.all (fun projection => match projection with
      | .series _ values _ => values.length == child.rows.length
      | _ => true) then
    if isIdentityProjection projections child.columns then some child else child.select projections
  else none

/-- `ExplodeExec.execute_node` after `with_columns`. -/
def ExplodeExec.explode (colName : String) (keepNullAndEmpty : Bool) (child : Frame V) : Option (Frame V) :=
  (child.explode colName).map (fun exploded => if keepNullAndEmpty then exploded else exploded.dropNulls colName)

def ExplodeExec.executeNode (physicalExpr : RowExpr V) (colName : String) (keepNullAndEmpty : Bool)
    (child : Frame V) : Option (Frame V) :=
  (child.withColumn physicalExpr).bind (ExplodeExec.explode colName keepNullAndEmpty)

/-- The items of a cell and their indices; null and the empty list have a null index. -/
def explodeCellWithIndex (cell : Cell V) : List (Cell V × Cell V) :=
  match cell with
  | .val v =>
    match ColumnValue.items v with
    | [] => [(.null, .null)]
    | items => items.mapIdx (fun i item => (Cell.ofOption item, .val (ColumnValue.index i)))
  | cell => [(cell, .null)]

/-- `ExplodeWithIndexExec._explode_with_index`. -/
def ExplodeWithIndexExec.executeNode (physicalExpr : RowExpr V) (colName indexName valueName : String)
    (keepNullAndEmpty : Bool) (child : Frame V) : Option (Frame V) :=
  (child.withColumn physicalExpr).bind (fun df =>
    if colName ∈ df.columns ∧ indexName ≠ colName then
      let exploded : Frame V :=
        ⟨Frame.withName df.columns indexName, df.rows.flatMap (fun r =>
          (explodeCellWithIndex (r colName)).map (fun (item, index) =>
            Function.update (Function.update r indexName index) colName item))⟩
      let kept := if keepNullAndEmpty then exploded else exploded.dropNulls colName
      if valueName ≠ colName then kept.rename colName valueName else some kept
    else none)

/-- `LimitExec.execute_node`. -/
def LimitExec.executeNode (n : Nat) (child : Frame V) : Frame V :=
  if 0 < n then child.limit n else ⟨child.columns, []⟩

/-- `DropDuplicatesExec.execute_node`. -/
def DropDuplicatesExec.executeNode (subset : List String) (child : Frame V) : Option (Frame V) :=
  child.unique (if 0 < subset.length then some subset else none)

/-- `SortExec.execute_node`. -/
def SortExec.executeNode (cols : List (RowExpr V)) (order : RowOrder V) (child : Frame V) : Option (Frame V) :=
  if ∀ e ∈ cols, e.roots ⊆ child.columns then
    some ⟨child.columns, Rows.pick (order.positions (child.rows.map (fun r => cols.map (fun e => e.eval r)))) child.rows⟩
  else none

/-- A row after struct columns were replaced by their fields. -/
def unnestRow (structs : List (String × List String)) (r : Row V) : Row V := fun name =>
  match structs.find? (fun s => s.2.contains name) with
  | some (colName, _) =>
    match r colName with
    | .val v => Cell.ofOption (ColumnValue.field name v)
    | _ => .null
  | none => r name

/-- `UnnestExec.execute_node`. -/
def UnnestExec.executeNode (structs : List (String × List String)) (child : Frame V) : Option (Frame V) :=
  if structs.map Prod.fst ⊆ child.columns then
    Frame.checkNames ⟨child.columns.flatMap (fun c => (structs.lookup c).getD [c]),
      child.rows.map (unnestRow structs)⟩
  else none

/-- `pl.Expr.alias`. -/
def RowExpr.alias (name : String) (e : RowExpr V) : RowExpr V :=
  .computed name e.roots e.eval (fun _ _ h => e.eval_of_agrees h)

/-- `SemanticClusterExec.execute_node`. -/
def SemanticClusterExec.executeNode (byExpr : RowExpr V) (byExprName labelColumn : String)
    (cluster : List (Cell V) → List (Option V))
    (centroids : Option (String × (List (Cell V) → List (Option V)))) (child : Frame V) : Option (Frame V) :=
  (child.withColumn (byExpr.alias byExprName)).bind (fun df =>
    let embeddings := df.rows.map (fun r => r byExprName)
    (df.withSeries labelColumn ((cluster embeddings).map Cell.ofOption)).bind (fun labelled =>
      (match centroids with
        | none => some labelled
        | some (name, centroidOf) => labelled.withSeries name ((centroidOf embeddings).map Cell.ofOption)).map
        (fun clustered => if byExprName ∈ child.columns then clustered else clustered.drop byExprName)))

/-- The key of a row in a `group_by`. -/
def groupKey (groupExprs : List (RowExpr V)) (r : Row V) : List (Cell V) :=
  groupExprs.map (fun e => e.eval r)

/-- The row of a group. -/
def groupRow (groupExprs : List (RowExpr V)) (aggExprs : List (ReduceExpr V))
    (group : List (Cell V) × List (Row V)) : Row V := fun name =>
  match ((groupExprs.map RowExpr.name).zip group.1).lookup name with
  | some cell => cell
  | none => ((aggExprs.find? (fun e => e.name == name)).map (fun e => e.eval group.2)).getD .null

/-- `AggregateExec.execute_node`. Without group expressions there is one group, of all rows. -/
def AggregateExec.executeNode (groupExprs : List (RowExpr V)) (aggExprs : List (ReduceExpr V))
    (child : Frame V) : Option (Frame V) :=
  if (∀ e ∈ groupExprs, e.roots ⊆ child.columns) ∧ ∀ e ∈ aggExprs, e.roots ⊆ child.columns then
    Frame.checkNames ⟨groupExprs.map RowExpr.name ++ aggExprs.map ReduceExpr.name,
      (Rows.groupsBy (groupKey groupExprs) child.rows).map (groupRow groupExprs aggExprs)⟩
  else none

/-- `execute_node` of a unary operator. -/
def UnaryExec.executeNode : UnaryExec V → Frame V → Option (Frame V)
  | projection projections, child => ProjectionExec.executeNode projections child
  | filter predicate, child => child.filter predicate
  | explode physicalExpr colName keepNullAndEmpty, child =>
    ExplodeExec.executeNode physicalExpr colName keepNullAndEmpty child
  | explodeWithIndex physicalExpr colName indexName valueName keepNullAndEmpty, child =>
    ExplodeWithIndexExec.executeNode physicalExpr colName indexName valueName keepNullAndEmpty child
  | limit n, child => some (LimitExec.executeNode n child)
  | dropDuplicates subset, child => DropDuplicatesExec.executeNode subset child
  | sort cols order, child => SortExec.executeNode cols order child
  | unnest structs, child => UnnestExec.executeNode structs child
  | semanticCluster byExpr byExprName labelColumn cluster centroids, child =>
    SemanticClusterExec.executeNode byExpr byExprName labelColumn cluster centroids child
  | aggregate groupExprs aggExprs, child => AggregateExec.executeNode groupExprs aggExprs child

end

/-! ## Binary operators -/

/-- A join: which rows it pairs, given their keys, and which columns it drops. A pair may lack a row of one
    side, and may carry a score. -/
structure JoinOp (V : Type) where
  leftOn : List (RowExpr V)
  rightOn : List (RowExpr V)
  pairs : List (List (Cell V)) → List (List (Cell V)) → List ((Option Nat × Option Nat) × Option V)
  dropsLeft : List String
  dropsRight : List String
  scoreColumn : Option String

namespace JoinOp

/-- The columns of the left side in the result. -/
def leftNames (op : JoinOp V) (left : Frame V) : List String :=
  left.columns.filter (fun c => c ∉ op.dropsLeft)

/-- The columns of the right side in the result, with their names there. -/
def rightNames (op : JoinOp V) (left right : Frame V) : List (String × String) :=
  (right.columns.filter (fun c => c ∉ op.dropsRight)).map
    (fun c => (if c ∈ op.leftNames left then c ++ "_right" else c, c))

/-- The row of a pair. -/
def joinRow (op : JoinOp V) (left right : Frame V) (pair : (Option Nat × Option Nat) × Option V) : Row V :=
  fun name =>
    if op.scoreColumn = some name then Cell.ofOption pair.2
    else if name ∈ op.leftNames left then (pair.1.1.bind (fun i => left.rows[i]?)).elim .null (fun r => r name)
    else
      match (op.rightNames left right).lookup name with
      | some source => (pair.1.2.bind (fun j => right.rows[j]?)).elim .null (fun r => r source)
      | none => .null

/-- `execute_node` of a join. -/
def executeNode (op : JoinOp V) (left right : Frame V) : Option (Frame V) :=
  if (∀ e ∈ op.leftOn, e.roots ⊆ left.columns) ∧ ∀ e ∈ op.rightOn, e.roots ⊆ right.columns then
    Frame.checkNames ⟨op.leftNames left ++ (op.rightNames left right).map Prod.fst ++ op.scoreColumn.toList,
      (op.pairs (left.rows.map (groupKey op.leftOn)) (right.rows.map (groupKey op.rightOn))).map
        (op.joinRow left right)⟩
  else none

end JoinOp

inductive JoinHow where
  | inner
  | full
  | left
  | right
  | cross
  deriving DecidableEq

section

variable [DecidableEq V]

/-- Keys match when they are equal and nothing in them is null. -/
def keysMatch (key key' : List (Cell V)) : Bool :=
  decide (key = key') && !key.contains .null

/-- The positions that an equi-join pairs. -/
def joinPairs (how : JoinHow) (leftKeys rightKeys : List (List (Cell V))) :
    List ((Option Nat × Option Nat) × Option V) :=
  let matched := leftKeys.zipIdx.flatMap (fun (key, i) =>
    (rightKeys.zipIdx.filter (fun (key', _) => keysMatch key key')).map (fun (_, j) => ((some i, some j), none)))
  let lonelyLeft := (leftKeys.zipIdx.filter (fun (key, _) => !rightKeys.any (keysMatch key))).map
    (fun (_, i) => ((some i, none), none))
  let lonelyRight := (rightKeys.zipIdx.filter (fun (key, _) => !leftKeys.any (fun key' => keysMatch key' key))).map
    (fun (_, j) => ((none, some j), none))
  match how with
  | .inner => matched
  | .left => matched ++ lonelyLeft
  | .right => matched ++ lonelyRight
  | .full => matched ++ lonelyLeft ++ lonelyRight
  | .cross => leftKeys.zipIdx.flatMap (fun (_, i) => rightKeys.zipIdx.map (fun (_, j) => ((some i, some j), none)))

/-- The key columns that a join merges: those of the other side, when all keys are plain columns. -/
def mergedKeys (leftOn rightOn : List (RowExpr V)) (keys : List (RowExpr V)) : List String :=
  if (leftOn ++ rightOn).all RowExpr.isColumn then keys.map RowExpr.name else []

/-- `JoinExec`. -/
def JoinExec (leftOnExprs rightOnExprs : List (RowExpr V)) (how : JoinHow) : JoinOp V where
  leftOn := if how = .cross then [] else leftOnExprs
  rightOn := if how = .cross then [] else rightOnExprs
  pairs := joinPairs how
  dropsLeft := if how = .right then mergedKeys leftOnExprs rightOnExprs leftOnExprs else []
  dropsRight := if how = .inner ∨ how = .left then mergedKeys leftOnExprs rightOnExprs rightOnExprs else []
  scoreColumn := none

end

/-- `SemanticJoinExec`: the model decides which pairs of documents match. -/
def SemanticJoinExec (leftOn rightOn : RowExpr V)
    (decidePairs : List (Cell V) → List (Cell V) → List (Nat × Nat)) : JoinOp V where
  leftOn := [leftOn]
  rightOn := [rightOn]
  pairs := fun leftKeys rightKeys =>
    (decidePairs leftKeys.flatten rightKeys.flatten).map (fun (i, j) => ((some i, some j), none))
  dropsLeft := []
  dropsRight := []
  scoreColumn := none

/-- `SemanticSimilarityJoinExec`: the vector index finds the nearest rows and their distances. -/
def SemanticSimilarityJoinExec (leftOn rightOn : RowExpr V)
    (search : List (Cell V) → List (Cell V) → List ((Nat × Nat) × Option V))
    (similarityScoreColumn : Option String) : JoinOp V where
  leftOn := [leftOn]
  rightOn := [rightOn]
  pairs := fun leftKeys rightKeys =>
    (search leftKeys.flatten rightKeys.flatten).map (fun ((i, j), distance) => ((some i, some j), distance))
  dropsLeft := []
  dropsRight := []
  scoreColumn := similarityScoreColumn

inductive BinaryExec (V : Type) where
  | union
  | join (op : JoinOp V)

/-- The frame with its columns in a given order, `df.select(columns)`. -/
def Frame.selectColumns (columns : List String) (f : Frame V) : Option (Frame V) :=
  if columns ⊆ f.columns then Frame.checkNames ⟨columns, f.rows⟩ else none

/-- `UnionExec.execute_node`, with `_align_union_right_dataframe`. -/
def UnionExec.executeNode (left right : Frame V) : Option (Frame V) :=
  (if right.columns = left.columns then some right else right.selectColumns left.columns).bind left.concat

/-- `execute_node` of a binary operator. -/
def BinaryExec.executeNode : BinaryExec V → Frame V → Frame V → Option (Frame V)
  | union, left, right => UnionExec.executeNode left right
  | join op, left, right => op.executeNode left right

/-! ## Plans -/

/-- The intermediate store. -/
abbrev Store (V : Type) := String → Option (DataFrame V)

/-- A physical plan. A node other than a source may have a cache key. -/
inductive Plan (V : Type) where
  | inMemorySource (source : TypedFrame V)
  /-- A file, table or document source, with what it reads. -/
  | scan (operatorName : String) (df : DataFrame V)
  | cacheRead (cacheKey : String)
  | unary (op : UnaryExec V) (cacheKey : Option String) (child : Plan V)
  | binary (op : BinaryExec V) (cacheKey : Option String) (left right : Plan V)

/-- Step 4 of `PhysicalPlan.execute`: write to the cache what is not there yet. -/
def Store.writeResult (store : Store V) (cacheKey : Option String) (result : Frame V) : Store V :=
  match cacheKey with
  | none => store
  | some key => if (store key).isSome then store else Function.update store key result.toData?

section

variable [ColumnValue V] [PolarsCast V] [DecidableEq V]

/-- `PhysicalPlan.execute`: the result, and the store afterwards. -/
def Plan.execute : Plan V → Store V → Option (Frame V × Store V)
  | inMemorySource source, store => some (source.applyIngestionCoercions.toFrame, store)
  | scan _ df, store => some (df.toFrame, store)
  | cacheRead cacheKey, store => (store cacheKey).map (fun df => (df.toFrame, store))
  | unary op cacheKey child, store =>
    (child.execute store).bind (fun (childDf, store) =>
      (op.executeNode childDf).map (fun result => (result, store.writeResult cacheKey result)))
  | binary op cacheKey left right, store =>
    (left.execute store).bind (fun (leftDf, store) =>
      (right.execute store).bind (fun (rightDf, store) =>
        (op.executeNode leftDf rightDf).map (fun result => (result, store.writeResult cacheKey result))))

end

end Lineage

end Fenic
