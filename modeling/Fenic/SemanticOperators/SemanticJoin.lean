import Fenic.Lib.EquiJoin
import Fenic.Lineage.PhysicalPlan
import Fenic.SemanticOperators.StructuredOutput

/-!
# `SemanticOperators.SemanticJoin` — the semantic join

`SemanticJoinExec.execute_node` gives the joined columns the names `left_on` and `right_on`, numbers the rows of both sides,
renders all pairs of documents, asks the model about each of them, and joins the numbers of the pairs that match back to both
sides. The helper columns are in one frame with the user's.

Frames of helper columns alone are lists of records here. What stays open is in `JoinModel`: the template, the answers of the
model, and whether the engine filters by a column that has only nulls.
-/

namespace Fenic

namespace SemanticOperators

open Lineage (Cell Row Frame RowExpr)

/-- `LEFT_ON_KEY`. -/
def leftOnKey : String := "left_on"

/-- `RIGHT_ON_KEY`. -/
def rightOnKey : String := "right_on"

/-- `LEFT_ID_KEY`. -/
def leftIdKey : String := "__left_id__"

/-- `RIGHT_ID_KEY`. -/
def rightIdKey : String := "__right_id__"

/-- Requests with the same prompt share their answer. -/
structure JoinModel (V : Type) where
  /-- The template, `strict` or not. -/
  render : Bool → Cell V → Cell V → Option String
  depth : Nat
  answer : String → Option PyString
  /-- The response format of the predicate: an output is a truth value. -/
  output_isBool : ∀ text data, outputOf depth (answer text) = some data → data.isBool = true
  /-- A column of nulls has no type of truth values. -/
  filtersByNulls : Bool

variable {V : Type}

/-! ## Columns -/

/-- `df.rename({old: new})`, also to the same name. -/
def renameColumn (old new : String) (df : Frame V) : Option (Frame V) :=
  if old = new then if old ∈ df.columns then some df else none else df.rename old new

/-- `normalize_column_before_join`. -/
def normalizeColumnBeforeJoin (df : Frame V) (col : RowExpr V) (aliasName : String) : Option (Frame V × Option String) :=
  match col with
  | .column name => (renameColumn name aliasName df).map fun df => (df, some name)
  | .computed _ roots eval reads => (df.withColumn (.computed aliasName roots eval reads)).map fun df => (df, none)

/-- `restore_column_after_join`. An empty name counts as none. -/
def restoreColumnAfterJoin (df : Frame V) (originalName : Option String) (aliasName : String) : Option (Frame V) :=
  match originalName with
  | some name => if name ≠ "" then renameColumn aliasName name df else some (df.drop aliasName)
  | none => some (df.drop aliasName)

/-- `df.with_row_index(name)`. -/
def withRowIndex (name : String) (df : Frame V) : Option (Frame V) :=
  if name ∈ df.columns then none
  else some ⟨name :: df.columns, df.rows.zipIdx.map fun (r, i) => Function.update r name (.rowId i)⟩

/-- An inner join on a column that both sides have. -/
def joinOn [DecidableEq V] (key : String) (left right : Frame V) : Option (Frame V) :=
  (Lineage.JoinExec [.column key] [.column key] .inner).executeNode left right

/-! ## `Join` -/

/-- What `filter` keeps by. -/
def PyValue.isTrue : PyValue → Bool
  | .bool b => b
  | _ => false

/-- A row of `join_inputs`. -/
structure JoinPair (V : Type) where
  leftId : Cell V
  rightId : Cell V
  renderedInstruction : Option String

/-- `build_request_messages_batch`, for one document: an empty one is not asked about. -/
def promptOf : Option String → Option String
  | some document => if document = "" then none else some document
  | none => none

/-- The prediction for a document. -/
def JoinModel.prediction (model : JoinModel V) (document : Option String) : PyValue :=
  predicatePrediction model.depth ((promptOf document).bind model.answer)

/-- `Predicate.execute`. -/
def predictions (model : JoinModel V) (documents : List (Option String)) : List PyValue := documents.map model.prediction

def isNull : Cell V → Bool
  | .null => true
  | _ => false

/-- The document of two cells, or none if a `strict` join leaves them out for a null. -/
def JoinModel.document (model : JoinModel V) (strict : Bool) (l r : Cell V) : Option String :=
  if strict && (isNull l || isNull r) then none else model.render strict l r

namespace Join

/-- The documents of a side, with the numbers of their rows. -/
def documents (strict : Bool) (key idKey : String) (df : Frame V) : List (Cell V × Cell V) :=
  (df.rows.map fun r => (r key, r idKey)).filter fun document => !(strict && isNull document.1)

/-- `_build_join_pairs_df` of sides that are not empty. -/
def buildJoinPairs (model : JoinModel V) (strict : Bool) (leftDf rightDf : Frame V) : List (JoinPair V) :=
  (documents strict leftOnKey leftIdKey leftDf).flatMap fun left =>
    (documents strict rightOnKey rightIdKey rightDf).map fun right =>
      { leftId := left.2, rightId := right.2, renderedInstruction := model.render strict left.1 right.1 }

/-- The numbers of a pair as a row. -/
def idRow (pair : JoinPair V) : Row V := fun name =>
  if name = leftIdKey then pair.leftId else if name = rightIdKey then pair.rightId else .null

/-- `_postprocess`. -/
def postprocess [DecidableEq V] (model : JoinModel V) (leftDf rightDf : Frame V) (joinPairs : List (JoinPair V))
    (results : List PyValue) : Option (Frame V) :=
  if (results.all PyValue.isNone && !model.filtersByNulls) = true then none
  else
    let filteredResults : Frame V :=
      ⟨[leftIdKey, rightIdKey], ((joinPairs.zip results).filter fun entry => entry.2.isTrue).map fun entry => idRow entry.1⟩
    (joinOn leftIdKey filteredResults leftDf).bind fun joinedDf =>
      (joinOn rightIdKey joinedDf rightDf).map fun joinedDf => (joinedDf.drop leftIdKey).drop rightIdKey

/-- `_empty_result_with_schema`. A dict has a name once. -/
def emptyResultWithSchema (left right : Frame V) : Frame V :=
  ⟨Rows.uniqueBy id (left.columns.filter (· ≠ leftIdKey) ++ right.columns.filter (· ≠ rightIdKey)), []⟩

/-- `execute`. -/
def execute [DecidableEq V] (model : JoinModel V) (strict : Bool) (left right : Frame V) : Option (Frame V) :=
  (withRowIndex leftIdKey left).bind fun leftDf =>
    (withRowIndex rightIdKey right).bind fun rightDf =>
      if leftDf.rows.isEmpty || rightDf.rows.isEmpty then some (emptyResultWithSchema leftDf rightDf)
      else
        let joinInputs := buildJoinPairs model strict leftDf rightDf
        postprocess model leftDf rightDf joinInputs (predictions model (joinInputs.map JoinPair.renderedInstruction))

end Join

/-! ## The plan node -/

/-- A semantic join that was planned: its keys read columns of their sides, and no name is on both. -/
structure SemanticJoin (V : Type) where
  leftOn : RowExpr V
  rightOn : RowExpr V
  strict : Bool
  left : Frame V
  right : Frame V
  leftOn_roots : leftOn.roots ⊆ left.columns
  rightOn_roots : rightOn.roots ⊆ right.columns
  nodup : (left.columns ++ right.columns).Nodup

namespace SemanticJoin

variable [DecidableEq V] (model : JoinModel V) (join : SemanticJoin V)

/-- `SemanticJoinExec.execute_node`. -/
def executeNode : Option (Frame V) :=
  (normalizeColumnBeforeJoin join.left join.leftOn leftOnKey).bind fun (leftDf, maybeLeftName) =>
    (normalizeColumnBeforeJoin join.right join.rightOn rightOnKey).bind fun (rightDf, maybeRightName) =>
      (Join.execute model join.strict leftDf rightDf).bind fun result =>
        (restoreColumnAfterJoin result maybeLeftName leftOnKey).bind fun result =>
          restoreColumnAfterJoin result maybeRightName rightOnKey

/-! ## What is to hold -/

/-- The document of a pair, or none if a `strict` join leaves the pair out for a null. -/
def document (l r : Row V) : Option String := model.document join.strict (join.leftOn.eval l) (join.rightOn.eval r)

/-- The outcome of the predicate for a pair. Pairs without a document are not asked about, nor are those with an empty one. -/
def outcome (l r : Row V) : PyValue := model.prediction (join.document model l r)

/-- The model says that the predicate is true for a document. -/
def holds (document : String) : Bool := (predicatePrediction model.depth (model.answer document)).isTrue

/-- The predicate is true for a pair. -/
def isMatch (l r : Row V) : Bool := (join.document model l r).any (holds model)

/-- The cells of a pair. -/
def tuple (pair : Row V × Row V) : List (Cell V) := join.left.columns.map pair.1 ++ join.right.columns.map pair.2

/-- One row for each pair for which the predicate is true. -/
def filteredProduct : Multiset (List (Cell V)) :=
  (EquiJoin.inner (join.isMatch model) join.left.rows join.right.rows).map join.tuple

/-- The result is the filtered product, with the columns of both sides and no others. -/
def IsFilteredProduct (result : Frame V) : Prop :=
  result.columns = join.left.columns ++ join.right.columns ∧ (result.tuples : Multiset _) = join.filteredProduct model

end SemanticJoin

end SemanticOperators

end Fenic
