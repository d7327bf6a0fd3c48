import Fenic.Lineage.PhysicalPlan
import Fenic.PlanSchema.Plan

/-!
# `PlanSchema.StoredSchemas` — plans that keep the schemas they were built with

A node builds its schema once, of its attributes and of the schemas that its children keep, and keeps it. `StoredPlan` is a
plan with the schemas that its nodes keep. In a plan that is built from its sources upwards (`Built`), each of them is the
one that the node would build again (`Consistent`); a plan whose attributes are edited later need not be.
-/

namespace Fenic

namespace PlanSchema

open Expressions

/-! ## Classes -/

/-- The class of a node, with the attributes from which it builds its schema. -/
inductive PlanClass (Func Model Series : Type) where
  | source (schema : Schema)
  | projection (exprs : List (Expressions.LogicalExpr Func Model Series))
  | filter (predicate : Expressions.LogicalExpr Func Model Series)
  | union
  | limit (n : Nat)
  | explode (expr : Expressions.LogicalExpr Func Model Series) (keepNullAndEmpty : Bool)
  | explodeWithIndex (expr : Expressions.LogicalExpr Func Model Series) (indexName valueName : String)
      (keepNullAndEmpty : Bool)
  | dropDuplicates (subset : List String)
  | sort (sortExprs : List (Expressions.LogicalExpr Func Model Series))
  | unnest (colNames : List String)
  /-- DuckDB plans the query over empty frames of the schemas of the inputs. -/
  | sql (planned : List Schema → Option Schema)
  | semanticCluster (byExpr : Expressions.LogicalExpr Func Model Series) (labelColumn : String)
      (centroidColumn : Option String)
  /-- The aggregates are aliases. -/
  | aggregate (groupExprs : List (Expressions.LogicalExpr Func Model Series))
      (aggExprs : List (String × Expressions.LogicalExpr Func Model Series))
  | join (leftOn rightOn : List (Expressions.LogicalExpr Func Model Series)) (how : Lineage.JoinHow)
  /-- The template and the examples take values of two types, or do not. -/
  | semanticJoin (leftOn rightOn : Expressions.LogicalExpr Func Model Series) (takes : DataType → DataType → Bool)
  | semanticSimilarityJoin (leftOn rightOn : Expressions.LogicalExpr Func Model Series)
      (similarityScoreColumn : Option String)
  | sink

section

variable {Func Model Series : Type} [Signatures Func Model Series]

/-- An optional column, which an empty name does not ask for. -/
def optionalColumn (name : Option String) (dataType : DataType) : Schema :=
  match name with
  | none => []
  | some name => if name = "" then [] else [⟨name, dataType⟩]

/-- `SemanticCluster`. -/
def semanticClusterSchema (schema : Schema) (byExpr : Expressions.LogicalExpr Func Model Series) (labelColumn : String)
    (centroidColumn : Option String) : Option Schema :=
  if isScalar byExpr "semantic.with_cluster_labels" then
    match byExpr.logicalType schema with
    | some (.embeddingType dimensions embeddingModel) =>
      some (schema ++
        (⟨labelColumn, .integerType⟩ :: optionalColumn centroidColumn (.embeddingType dimensions embeddingModel)))
    | _ => none
  else none

/-- `isinstance(col, ColumnExpr)`, and its name. -/
def keyName? (e : Expressions.LogicalExpr Func Model Series) : Option String :=
  match e.head with
  | .column name => some name
  | _ => none

/-- Both keys have a type, and it is the same. -/
def Comparable (left right : Schema)
    (key : Expressions.LogicalExpr Func Model Series × Expressions.LogicalExpr Func Model Series) : Prop :=
  (key.1.logicalType left).isSome ∧ key.1.logicalType left = key.2.logicalType right

instance (left right : Schema) (key : Expressions.LogicalExpr Func Model Series × Expressions.LogicalExpr Func Model Series) :
    Decidable (Comparable left right key) := inferInstanceAs (Decidable (_ ∧ _))

/-- The columns of the secondary side: a key by columns of the same name is there once. -/
def secondaryColumns (schema : Schema) (primaryNames secondaryNames : List String) : Schema :=
  schema.filter fun f => !(f.name ∈ primaryNames ∧ f.name ∈ secondaryNames)

/-- The columns of `Join`, by the names of the keys that are columns. -/
def joinColumns (left right : Schema) (leftNames rightNames : List String) : Lineage.JoinHow → Schema
  | .cross => left ++ right
  | .full => left ++ right
  | .right => secondaryColumns left rightNames leftNames ++ right
  | .left => left ++ secondaryColumns right leftNames rightNames
  | .inner => left ++ secondaryColumns right leftNames rightNames

/-- `Join`. -/
def joinSchema (left right : Schema) (leftOn rightOn : List (Expressions.LogicalExpr Func Model Series))
    (how : Lineage.JoinHow) : Option Schema :=
  if (leftOn ++ rightOn).all (fun e => isScalar e "join") ∧ ∀ key ∈ leftOn.zip rightOn, Comparable left right key then
    some (joinColumns left right (leftOn.filterMap keyName?) (rightOn.filterMap keyName?) how)
  else none

/-- `SemanticJoin`. -/
def semanticJoinSchema (left right : Schema) (leftOn rightOn : Expressions.LogicalExpr Func Model Series)
    (takes : DataType → DataType → Bool) : Option Schema :=
  if isScalar leftOn "semantic.join" ∧ isScalar rightOn "semantic.join" then
    (leftOn.logicalType left).bind fun leftType => (rightOn.logicalType right).bind fun rightType =>
      if takes leftType rightType then some (left ++ right) else none
  else none

/-- `SemanticSimilarityJoin`. -/
def semanticSimilarityJoinSchema (left right : Schema) (leftOn rightOn : Expressions.LogicalExpr Func Model Series)
    (similarityScoreColumn : Option String) : Option Schema :=
  if isScalar leftOn "semantic.sim_join" ∧ isScalar rightOn "semantic.sim_join" then
    match leftOn.logicalType left with
    | some (.embeddingType dimensions embeddingModel) =>
      if rightOn.logicalType right = some (.embeddingType dimensions embeddingModel) then
        some (left ++ right ++ optionalColumn similarityScoreColumn .doubleType)
      else none
    | _ => none
  else none

/-! ## Schemas -/

def onInput (inputs : List Schema) (build : Schema → Option Schema) : Option Schema :=
  match inputs with
  | [schema] => build schema
  | _ => none

def onInputs (inputs : List Schema) (build : Schema → Schema → Option Schema) : Option Schema :=
  match inputs with
  | [left, right] => build left right
  | _ => none

namespace PlanClass

/-- `_build_schema`, over the schemas of the inputs. -/
def columns (inputs : List Schema) : PlanClass Func Model Series → Option Schema
  | .source schema => if inputs = [] then some schema else none
  | .projection exprs => onInput inputs fun s => projectionSchema s exprs
  | .filter predicate => onInput inputs fun s => filterSchema s predicate
  | .union => unionSchema inputs
  | .limit _ => onInput inputs some
  | .explode expr _ => onInput inputs fun s => explodeSchema s expr
  | .explodeWithIndex expr indexName valueName _ =>
    onInput inputs fun s => explodeWithIndexSchema s expr indexName valueName
  | .dropDuplicates _ => onInput inputs some
  | .sort _ => onInput inputs some
  | .unnest colNames => onInput inputs fun s => s.unnest colNames
  | .sql planned => planned inputs
  | .semanticCluster byExpr labelColumn centroidColumn =>
    onInput inputs fun s => semanticClusterSchema s byExpr labelColumn centroidColumn
  | .aggregate groupExprs aggExprs => onInput inputs fun s => aggregateSchema s groupExprs aggExprs
  | .join leftOn rightOn how => onInputs inputs fun left right => joinSchema left right leftOn rightOn how
  | .semanticJoin leftOn rightOn takes =>
    onInputs inputs fun left right => semanticJoinSchema left right leftOn rightOn takes
  | .semanticSimilarityJoin leftOn rightOn similarityScoreColumn =>
    onInputs inputs fun left right => semanticSimilarityJoinSchema left right leftOn rightOn similarityScoreColumn
  | .sink => onInput inputs some

/-- `_build_schema` and `_validate_schema`. -/
def buildSchema (inputs : List Schema) (cls : PlanClass Func Model Series) : Option Schema :=
  (cls.columns inputs).bind Schema.validated

end PlanClass

end

/-! ## Plans -/

/-- A node with the schema that it keeps. -/
inductive StoredPlan (Func Model Series : Type) where
  | node (cls : PlanClass Func Model Series) (schema : Schema) (children : List (StoredPlan Func Model Series))

namespace StoredPlan

section

variable {Func Model Series : Type}

def cls : StoredPlan Func Model Series → PlanClass Func Model Series
  | .node cls _ _ => cls

/-- `schema()`. -/
def schema : StoredPlan Func Model Series → Schema
  | .node _ schema _ => schema

def children : StoredPlan Func Model Series → List (StoredPlan Func Model Series)
  | .node _ _ children => children

mutual

/-- The plan and all plans in it. -/
def nodes : StoredPlan Func Model Series → List (StoredPlan Func Model Series)
  | .node cls schema children => .node cls schema children :: nodesList children

def nodesList : List (StoredPlan Func Model Series) → List (StoredPlan Func Model Series)
  | [] => []
  | p :: ps => nodes p ++ nodesList ps

end

theorem self_mem_nodes : ∀ p : StoredPlan Func Model Series, p ∈ p.nodes
  | .node _ _ _ => List.mem_cons_self

theorem mem_nodesList {q : StoredPlan Func Model Series} {ps : List (StoredPlan Func Model Series)} :
    q ∈ nodesList ps ↔ ∃ p ∈ ps, q ∈ p.nodes := by
  induction ps with
  | nil => exact ⟨fun h => absurd h List.not_mem_nil, fun ⟨_, hp, _⟩ => absurd hp List.not_mem_nil⟩
  | cons p ps ih =>
    show q ∈ nodes p ++ nodesList ps ↔ _
    rw [List.mem_append, ih, List.exists_mem_cons_iff]

mutual

theorem nodes_trans {q r : StoredPlan Func Model Series} : ∀ p : StoredPlan Func Model Series,
    q ∈ p.nodes → r ∈ q.nodes → r ∈ p.nodes
  | .node cls schema children, hq, hr => by
    rcases List.mem_cons.mp hq with rfl | hq
    · exact hr
    · exact List.mem_cons_of_mem _ (nodesList_trans children hq hr)

theorem nodesList_trans {q r : StoredPlan Func Model Series} : ∀ ps : List (StoredPlan Func Model Series),
    q ∈ nodesList ps → r ∈ q.nodes → r ∈ nodesList ps
  | [], hq, _ => absurd hq List.not_mem_nil
  | p :: ps, hq, hr => by
    rcases List.mem_append.mp hq with hq | hq
    · exact List.mem_append_left _ (nodes_trans p hq hr)
    · exact List.mem_append_right _ (nodesList_trans ps hq hr)

end

end

variable {Func Model Series : Type} [Signatures Func Model Series]

/-- A new node, which keeps the schema that it builds. -/
def build (cls : PlanClass Func Model Series) (children : List (StoredPlan Func Model Series)) :
    Option (StoredPlan Func Model Series) :=
  (cls.buildSchema (children.map schema)).map fun s => .node cls s children

/-- The plan was built from its sources upwards. -/
inductive Built : StoredPlan Func Model Series → Prop where
  | build {cls : PlanClass Func Model Series} {children : List (StoredPlan Func Model Series)}
      {p : StoredPlan Func Model Series} : (∀ child ∈ children, Built child) → build cls children = some p → Built p

mutual

/-- The schema of a plan when all of its nodes build theirs again. -/
def rebuilt : StoredPlan Func Model Series → Option Schema
  | .node cls _ children => (rebuiltAll children).bind fun inputs => cls.buildSchema inputs

def rebuiltAll : List (StoredPlan Func Model Series) → Option (List Schema)
  | [] => some []
  | p :: ps => (rebuilt p).bind fun s => (rebuiltAll ps).map fun ss => s :: ss

end

/-- Every node keeps the schema that its attributes and its children make. -/
def Consistent (p : StoredPlan Func Model Series) : Prop := ∀ q ∈ p.nodes, q.rebuilt = some q.schema

/-- The node keeps the schema that it makes of those its children keep. -/
def KeepsBuilt (p : StoredPlan Func Model Series) : Prop :=
  p.cls.buildSchema (p.children.map schema) = some p.schema

theorem rebuiltAll_eq {ps : List (StoredPlan Func Model Series)} (h : ∀ p ∈ ps, p.rebuilt = some p.schema) :
    rebuiltAll ps = some (ps.map schema) := by
  induction ps with
  | nil => rfl
  | cons p ps ih =>
    show ((rebuilt p).bind fun s => (rebuiltAll ps).map fun ss => s :: ss) = _
    rw [h p List.mem_cons_self, ih fun q hq => h q (List.mem_cons_of_mem _ hq)]
    rfl

mutual

theorem rebuilt_eq : ∀ p : StoredPlan Func Model Series, (∀ q ∈ p.nodes, q.KeepsBuilt) → p.rebuilt = some p.schema
  | .node cls schema children, h => by
    have hchildren := rebuilt_eq_of_mem children fun q hq => h q (List.mem_cons_of_mem _ hq)
    unfold rebuilt
    rw [rebuiltAll_eq hchildren]
    exact h _ List.mem_cons_self

theorem rebuilt_eq_of_mem : ∀ ps : List (StoredPlan Func Model Series), (∀ q ∈ nodesList ps, q.KeepsBuilt) →
    ∀ p ∈ ps, p.rebuilt = some p.schema
  | [], _, _, hp => absurd hp List.not_mem_nil
  | p' :: ps, h, p, hp => by
    rcases List.mem_cons.mp hp with heq | hp
    · rw [heq]
      exact rebuilt_eq p' fun q hq => h q (List.mem_append_left _ hq)
    · exact rebuilt_eq_of_mem ps (fun q hq => h q (List.mem_append_right _ hq)) p hp

end

/-- **A plan is consistent when each of its nodes is, over the schemas that its children keep.** -/
theorem consistent_iff (p : StoredPlan Func Model Series) : p.Consistent ↔ ∀ q ∈ p.nodes, q.KeepsBuilt := by
  constructor
  · rintro h ⟨cls, s, children⟩ hq
    have hchildren : ∀ child ∈ children, child.rebuilt = some child.schema := fun child hchild =>
      h child (nodes_trans p hq (List.mem_cons_of_mem _ (mem_nodesList.mpr ⟨child, hchild, self_mem_nodes child⟩)))
    have hrebuilt := h _ hq
    unfold rebuilt at hrebuilt
    rw [rebuiltAll_eq hchildren] at hrebuilt
    exact hrebuilt
  · exact fun h q hq => rebuilt_eq q fun r hr => h r (nodes_trans p hq hr)

/-- A node over plans that are built, which keeps the schema that it builds. -/
theorem Built.node {cls : PlanClass Func Model Series} {s : Schema} {children : List (StoredPlan Func Model Series)}
    (hchildren : ∀ child ∈ children, child.Built) (h : (StoredPlan.node cls s children).KeepsBuilt) :
    (StoredPlan.node cls s children).Built :=
  .build hchildren (Option.map_eq_some_iff.mpr ⟨s, h, rfl⟩)

/-- **A plan that is built is consistent.** -/
theorem Built.keepsBuilt {p : StoredPlan Func Model Series} (h : p.Built) : ∀ q ∈ p.nodes, q.KeepsBuilt := by
  induction h with
  | @build cls children p _ hbuild ih =>
    obtain ⟨s, hs, rfl⟩ := Option.map_eq_some_iff.mp hbuild
    intro q hq
    rcases List.mem_cons.mp hq with rfl | hq
    · exact hs
    · obtain ⟨child, hchild, hq⟩ := mem_nodesList.mp hq
      exact ih child hchild q hq

end StoredPlan

end PlanSchema

end Fenic
