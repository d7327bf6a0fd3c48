import Fenic.Lib.Except
import Fenic.Lineage.PhysicalPlan
import Fenic.Types.DataType

/-!
# `Joins.Join` — the join node and its schema

`Join.buildSchema` decides by the names of the keys which columns a join has; `JoinExec` leaves that to the engine, which
goes by the kind of the keys. `Join.executeNode` is the join as the converter hands it to the engine.
-/

namespace Fenic

namespace Joins

open Lineage (Cell Row Frame RowExpr JoinHow)

inductive JoinError where
  /-- The name of a column that a key names and its side does not have. -/
  | columnNotFound (name : String)
  | invalidExpr
  | typeMismatch (leftType rightType : DataType)
  /-- The text of a mismatch asks the keys for their names, which only columns and aliases have. -/
  | noAttributeName
  | duplicateColumns
  deriving DecidableEq

variable {V : Type}

/-! ## Keys -/

/-- A key that is not a plain column. An alias at its root has a name; an alias anywhere in it stays there, since keys are
    converted without one of their own. -/
structure DerivedKey (V : Type) where
  aliasName : Option String
  hasAlias : Bool
  outputName : String
  roots : List String
  eval : Row V → Cell V
  reads : ∀ r r' : Row V, Lineage.Agrees roots r r' → eval r' = eval r
  dataType : Schema → Except JoinError DataType
  typed : ∀ schema t, dataType schema = .ok t → roots ⊆ schema.columnNames

inductive JoinKey (V : Type) where
  | column (name : String)
  | derived (key : DerivedKey V)

namespace JoinKey

/-- `to_column_field(...).data_type`. -/
def dataType (schema : Schema) : JoinKey V → Except JoinError DataType
  | column name =>
    match schema.find? fun field => field.name == name with
    | some field => .ok field.dataType
    | none => .error (.columnNotFound name)
  | derived key => key.dataType schema

/-- `col.name for ... if isinstance(col, ColumnExpr)`. -/
def columnName? : JoinKey V → Option String
  | column name => some name
  | derived _ => none

/-- `.name`, which the text of a mismatch shows. -/
def name? : JoinKey V → Option String
  | column name => some name
  | derived key => key.aliasName

def hasAlias : JoinKey V → Bool
  | column _ => false
  | derived key => key.hasAlias

/-- `convert(log_expr, with_alias=False)`. -/
def convert : JoinKey V → RowExpr V
  | column name => .column name
  | derived key => .computed key.outputName key.roots key.eval key.reads

@[simp] theorem convert_isColumn (key : JoinKey V) : key.convert.isColumn = key.columnName?.isSome := by
  cases key <;> rfl

/-- A key that has a type reads columns of its side. -/
theorem roots_subset {key : JoinKey V} {schema : Schema} {t : DataType} (h : key.dataType schema = .ok t) :
    key.convert.roots ⊆ schema.columnNames := by
  cases key with
  | column name =>
    rw [dataType] at h
    cases hfind : schema.find? fun field => field.name == name with
    | none =>
      rw [hfind] at h
      cases h
    | some field =>
      have hname : field.name = name := by simpa using List.find?_some hfind
      intro c hc
      obtain rfl : c = name := by simpa [convert, RowExpr.roots] using hc
      exact hname ▸ List.mem_map_of_mem (List.mem_of_find?_eq_some hfind)
  | derived key => exact key.typed schema t h

end JoinKey

/-! ## The node -/

/-- `Join` of two plans, of which the schemas matter. The schemas are those of plans, so no name is in one twice. -/
structure Join (V : Type) where
  left : Schema
  right : Schema
  left_nodup : left.columnNames.Nodup
  right_nodup : right.columnNames.Nodup
  on : List (JoinKey V × JoinKey V)
  how : JoinHow

namespace Join

def leftOn (join : Join V) : List (JoinKey V) := join.on.map Prod.fst

def rightOn (join : Join V) : List (JoinKey V) := join.on.map Prod.snd

/-- The comparison of the types of one pair. -/
def checkPair (join : Join V) (pair : JoinKey V × JoinKey V) : Except JoinError Unit := do
  let leftType ← pair.1.dataType join.left
  let rightType ← pair.2.dataType join.right
  if leftType = rightType then .ok ()
  else
    match pair.1.name?, pair.2.name? with
    | some _, some _ => .error (.typeMismatch leftType rightType)
    | _, _ => .error .noAttributeName

def primary (join : Join V) : Schema := if join.how = .right then join.right else join.left

def secondary (join : Join V) : Schema := if join.how = .right then join.left else join.right

/-- `primary_column_join_names`. -/
def primaryNames (join : Join V) : List String :=
  (if join.how = .right then join.rightOn else join.leftOn).filterMap JoinKey.columnName?

/-- `secondary_column_join_names`. -/
def secondaryNames (join : Join V) : List String :=
  (if join.how = .right then join.leftOn else join.rightOn).filterMap JoinKey.columnName?

/-- `secondary_fields_to_add`. -/
def secondaryFieldsToAdd (join : Join V) : Schema :=
  join.secondary.filter fun field => !(field.name ∈ join.primaryNames ∧ field.name ∈ join.secondaryNames)

/-- The fields of `_build_schema`. -/
def fields (join : Join V) : Schema :=
  match join.how with
  | .cross => join.left ++ join.right
  | .full => join.left ++ join.right
  | .right => join.secondaryFieldsToAdd ++ join.primary
  | _ => join.primary ++ join.secondaryFieldsToAdd

/-- `_build_schema`, with `_validate_schema`. -/
def buildSchema (join : Join V) : Except JoinError Schema := do
  join.on.forM join.checkPair
  if join.fields.columnNames.Nodup then .ok join.fields else .error .duplicateColumns

/-- `JoinExec.execute_node`. The engine wants a key for any join but a cross join, and no alias in a key. -/
def executeNode [DecidableEq V] (join : Join V) (left right : Frame V) : Option (Frame V) :=
  if join.how ≠ .cross ∧ (join.on = [] ∨ ∃ key ∈ join.leftOn ++ join.rightOn, key.hasAlias = true) then none
  else
    (Lineage.JoinExec (join.leftOn.map JoinKey.convert) (join.rightOn.map JoinKey.convert) join.how).executeNode left right

end Join

end Joins

end Fenic
