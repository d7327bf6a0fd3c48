import Fenic.Lineage.PhysicalPlan

/-!
# `Lineage.Graph` — building the lineage graph

`Plan.buildNodeLineage` follows the `build_node_lineage` methods. Every operator is run a second time, on
frames that carry the row ids of their rows in the column `_uuid`. A table of the intermediate store that
belongs to one operator stands in the operator itself; a fresh id is the next number of a supply.
-/

namespace Fenic

namespace Lineage

variable {V : Type}

/-- A mapping table: pairs of `_uuid` and `_backwards_uuid`. -/
abbrev Mapping (V : Type) := List (Cell V × Cell V)

/-- `OperatorLineage`, with its `ChildEdge`s. -/
inductive OperatorLineage (V : Type) where
  | mk (materializeTable : Frame V) (children : List (Mapping V × OperatorLineage V))

namespace OperatorLineage

def materializeTable : OperatorLineage V → Frame V
  | mk materializeTable _ => materializeTable

def children : OperatorLineage V → List (Mapping V × OperatorLineage V)
  | mk _ children => children

end OperatorLineage

/-! ## Row ids -/

namespace Frame

/-- The row ids of a frame. -/
def ids (f : Frame V) : List (Cell V) :=
  f.rows.map (fun r => r "_uuid")

/-- `_with_lineage_uuid`, with the ids from `supply` on. -/
def withIds (supply : Nat) (f : Frame V) : Frame V :=
  ⟨withName f.columns "_uuid", List.zipWith (fun r n => Function.update r "_uuid" (Cell.rowId n)) f.rows
    (List.range' supply f.rows.length)⟩

/-- Remember the ids of the rows as `_backwards_uuid` and give new ones. -/
def renewIds (supply : Nat) (f : Frame V) : Option (Frame V) :=
  (f.withColumn ((RowExpr.column "_uuid").alias "_backwards_uuid")).map (withIds supply)

/-- The mapping table with the ids in a column. -/
def mappingFrom (column : String) (f : Frame V) : Mapping V :=
  f.rows.map (fun r => (r "_uuid", r column))

end Frame

/-! ## One operator -/

/-- What an operator adds to the graph: its frame, its mapping tables, and the supply afterwards. -/
structure Step (V : Type) (Mappings : Type) where
  df : Frame V
  mappings : Mappings
  supply : Nat

section

variable [ColumnValue V] [DecidableEq V]

/-- The frame and the trivial mapping of an operator that keeps the ids of its rows. -/
def keepIds (supply : Nat) (df : Frame V) : Step V (Mapping V) :=
  ⟨df, df.mappingFrom "_uuid", supply⟩

/-- The frame and the mapping of an operator that may repeat rows. -/
def expandIds (supply : Nat) (df : Frame V) : Option (Step V (Mapping V)) :=
  (df.renewIds supply).map (fun renewed =>
    ⟨renewed.drop "_backwards_uuid", renewed.mappingFrom "_backwards_uuid", supply + df.rows.length⟩)

/-- `AggregateExec.build_node_lineage`: every group lists the ids of its rows. -/
def AggregateExec.lineage (groupExprs : List (RowExpr V)) (aggExprs : List (ReduceExpr V)) (supply : Nat)
    (child : Frame V) : Option (Step V (Mapping V)) :=
  (AggregateExec.executeNode groupExprs aggExprs child).bind (fun df =>
    if "_backwards_uuid" ∈ df.columns then none
    else
      let groups := Rows.groupsBy (groupKey groupExprs) child.rows
      let materializeDf := df.withIds supply
      some ⟨materializeDf,
        (materializeDf.ids.zip groups).flatMap (fun (id, group) => group.2.map (fun r => (id, r "_uuid"))),
        supply + df.rows.length⟩)

/-- `build_node_lineage` of a unary operator, given its child's frame. The operators not named are those of
    `_build_row_subset_lineage`. -/
def UnaryExec.lineage : UnaryExec V → Nat → Frame V → Option (Step V (Mapping V))
  | projection projections, supply, child =>
    (child.select (projections ++ [.row (.column "_uuid")])).map (keepIds supply)
  | explode _ colName keepNullAndEmpty, supply, child =>
    -- the expression is not evaluated here: the column is taken from the child's frame
    (ExplodeExec.explode colName keepNullAndEmpty child).bind (expandIds supply)
  | explodeWithIndex physicalExpr colName indexName valueName keepNullAndEmpty, supply, child =>
    (ExplodeWithIndexExec.executeNode physicalExpr colName indexName valueName keepNullAndEmpty child).bind
      (expandIds supply)
  | aggregate groupExprs aggExprs, supply, child => AggregateExec.lineage groupExprs aggExprs supply child
  | op, supply, child => (op.executeNode child).map (keepIds supply)

end

/-- `UnionExec.build_node_lineage`. -/
def UnionExec.lineage (supply : Nat) (left right : Frame V) : Option (Step V (Mapping V × Mapping V)) :=
  (left.renewIds supply).bind (fun leftDf =>
    (right.renewIds (supply + left.rows.length)).bind (fun rightDf =>
      (UnionExec.executeNode leftDf rightDf).map (fun df =>
        ⟨df.drop "_backwards_uuid", (leftDf.mappingFrom "_backwards_uuid", rightDf.mappingFrom "_backwards_uuid"),
          supply + left.rows.length + right.rows.length⟩)))

/-- `build_node_lineage` of the three joins. -/
def JoinOp.lineage (op : JoinOp V) (supply : Nat) (left right : Frame V) :
    Option (Step V (Mapping V × Mapping V)) :=
  (left.rename "_uuid" "_left_uuid").bind (fun leftDf =>
    (right.rename "_uuid" "_right_uuid").bind (fun rightDf =>
      (op.executeNode leftDf rightDf).bind (fun joined =>
        if "_left_uuid" ∈ joined.columns ∧ "_right_uuid" ∈ joined.columns then
          let df := joined.withIds supply
          some ⟨(df.drop "_left_uuid").drop "_right_uuid", (df.mappingFrom "_left_uuid", df.mappingFrom "_right_uuid"),
            supply + joined.rows.length⟩
        else none)))

/-- `build_node_lineage` of a binary operator, given its children's frames. -/
def BinaryExec.lineage : BinaryExec V → Nat → Frame V → Frame V → Option (Step V (Mapping V × Mapping V))
  | union, supply, left, right => UnionExec.lineage supply left right
  | join op, supply, left, right => op.lineage supply left right

/-! ## Plans -/

/-- The graph of a plan, with the frame of its root and the supply afterwards. -/
structure Built (V : Type) where
  operator : OperatorLineage V
  df : Frame V
  supply : Nat

/-- `_build_source_operator_lineage`. -/
def buildSource (supply : Nat) (df : Frame V) : Built V :=
  ⟨.mk (df.withIds supply) [], df.withIds supply, supply + df.rows.length⟩

/-- `PhysicalPlan.build_node_lineage`. In-memory sources take their frame as it is; the store is only read. -/
def Plan.buildNodeLineage [ColumnValue V] [DecidableEq V] : Plan V → Store V → Nat → Option (Built V)
  | inMemorySource source, _, supply => some (buildSource supply source.df.toFrame)
  | scan _ df, _, supply => some (buildSource supply df.toFrame)
  | cacheRead cacheKey, store, supply => (store cacheKey).map (fun df => buildSource supply df.toFrame)
  | unary op _ child, store, supply =>
    (child.buildNodeLineage store supply).bind (fun built =>
      (op.lineage built.supply built.df).map (fun step =>
        ⟨.mk step.df [(step.mappings, built.operator)], step.df, step.supply⟩))
  | binary op _ left right, store, supply =>
    (left.buildNodeLineage store supply).bind (fun builtLeft =>
      (right.buildNodeLineage store builtLeft.supply).bind (fun builtRight =>
        (op.lineage builtRight.supply builtLeft.df builtRight.df).map (fun step =>
          ⟨.mk step.df [(step.mappings.1, builtLeft.operator), (step.mappings.2, builtRight.operator)], step.df,
            step.supply⟩)))

end Lineage

end Fenic
