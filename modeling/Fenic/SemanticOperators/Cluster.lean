import Fenic.Lib.Keyed
import Fenic.Lib.Mask

/-!
# `SemanticOperators.Cluster` — the clusters of the rows

`Cluster` takes the valid embeddings out of a column, lets k-means label them, and writes the labels back to their rows; with
centroids, each of these rows gets the centroid of its label too. The physical operator puts the embeddings next to the rows
under the text of their expression, and takes that column out again unless the rows have one of that name.

k-means gets at most as many clusters as there are rows, but its points are the valid rows only. Without any valid row there are
no centroids, from which no column is made.
-/

namespace Fenic

namespace SemanticOperators

/-! ## Data frames -/

/-- An element of an embedding. -/
inductive Element (α : Type) where
  | null
  | nan
  | number (x : α)
  deriving DecidableEq

inductive Column (α β : Type) where
  | embeddings (cells : List (Option (List (Element α))))
  | labels (cells : List (Option Nat))
  | other (cells : List β)

def Column.length {α β : Type} : Column α β → Nat
  | .embeddings cells => cells.length
  | .labels cells => cells.length
  | .other cells => cells.length

/-- Columns of one height, under different names. -/
structure DataFrame (α β : Type) where
  height : Nat
  columns : List (String × Column α β)
  lengths : ∀ column ∈ columns, column.2.length = height
  names : (columns.map Prod.fst).Nodup

inductive ClusterError where
  | shapeError
  | columnNotFound
  /-- What `KMeans` raises. -/
  | valueError
  /-- `zip(..., strict=True)`. -/
  | zipMismatch
  | indexError
  /-- What `pa.array(None)` raises. -/
  | typeError
  | arrowInvalid
  deriving DecidableEq

section
variable {α β : Type}

namespace DataFrame

def column? (df : DataFrame α β) (name : String) : Option (Column α β) := Keyed.get df.columns name

/-- `with_columns` with one column. -/
def withColumn (df : DataFrame α β) (name : String) (column : Column α β) : Except ClusterError (DataFrame α β) :=
  if h : column.length = df.height then
    .ok {
      height := df.height
      columns := Keyed.set name column df.columns
      lengths := by
        intro column' hcolumn'
        rcases Keyed.mem_of_mem_set hcolumn' with rfl | hcolumn'
        · exact h
        · exact df.lengths column' hcolumn'
      names := Keyed.nodup_keys_set df.names }
  else .error .shapeError

def drop (df : DataFrame α β) (name : String) : DataFrame α β where
  height := df.height
  columns := Keyed.delete (· = name) df.columns
  lengths column hcolumn := df.lengths column (List.mem_filter.mp hcolumn).1
  names := df.names.sublist (List.filter_sublist.map Prod.fst)

end DataFrame

/-! ## Valid embeddings -/

def Element.isNull : Element α → Bool
  | .null => true
  | _ => false

def Element.isNan : Element α → Bool
  | .nan => true
  | _ => false

def Element.number? : Element α → Option α
  | .number x => some x
  | _ => none

/-- `filter_invalid_embeddings_expr`. -/
def isValidEmbedding : Option (List (Element α)) → Bool
  | none => false
  | some elements => !elements.any Element.isNull && !elements.any Element.isNan

/-- The rows of an embedding in `np.stack`: valid ones have numbers only. -/
def toPoint (cell : Option (List (Element α))) : List α := (cell.getD []).filterMap Element.number?

/-- The points of the valid rows. -/
def points (cells : List (Option (List (Element α)))) : List (List α) := (cells.filter isValidEmbedding).map toPoint

/-! ## k-means -/

/-- `fit_predict` and `cluster_centers_`. -/
structure Fit (α : Type) where
  labels : List Nat
  centers : List (List α)

/-- `KMeans(n_clusters, max_iter, n_init)`, fitted to points. It raises on more clusters than points. Otherwise each point gets
    one of the clusters, and each cluster has a center as wide as the points. -/
structure KMeans (α : Type) where
  fit : Nat → Nat → Nat → List (List α) → Option (Fit α)
  fails : ∀ (k maxIter numInit : Nat) {points : List (List α)}, points.length < k → fit k maxIter numInit points = none
  fits : ∀ (k maxIter numInit : Nat) {width : Nat} {points : List (List α)}, 0 < k → k ≤ points.length →
    (∀ point ∈ points, point.length = width) →
    ∃ fitted, fit k maxIter numInit points = some fitted ∧ fitted.labels.length = points.length ∧
      (∀ label ∈ fitted.labels, label < k) ∧ fitted.centers.length = k ∧ ∀ center ∈ fitted.centers, center.length = width

/-! ## The operator -/

structure CentroidInfo where
  centroidColumn : String
  numDimensions : Nat
  deriving DecidableEq

structure Cluster (α β : Type) where
  input : DataFrame α β
  embeddingColumnName : String
  numClusters : Nat
  maxIter : Nat
  numInit : Nat
  labelColumn : String
  centroidInfo : Option CentroidInfo

namespace Cluster

/-- `Cluster(...)`: at most as many clusters as rows. -/
def init (input : DataFrame α β) (embeddingColumnName : String) (numClusters maxIter numInit : Nat) (labelColumn : String)
    (centroidInfo : Option CentroidInfo) : Cluster α β where
  input := input
  embeddingColumnName := embeddingColumnName
  numClusters := min numClusters input.height
  maxIter := maxIter
  numInit := numInit
  labelColumn := labelColumn
  centroidInfo := centroidInfo

/-- `cluster_ids` and `centroids`. -/
structure Assigned (α : Type) where
  clusterIds : List (Option Nat)
  centroids : Option (List (Option (List α)))

/-- The body of the loop over the predictions. -/
def assign (centers : List (List α)) (assigned : Assigned α) (entry : Nat × Nat) : Except ClusterError (Assigned α) :=
  let clusterIds := assigned.clusterIds.set entry.1 (some entry.2)
  match assigned.centroids with
  | none => .ok ⟨clusterIds, none⟩
  | some centroids =>
    match centers[entry.2]? with
    | none => .error .indexError
    | some center => .ok ⟨clusterIds, some (centroids.set entry.1 (some center))⟩

/-- `for idx, cluster_id in zip(valid_indices, predicted, strict=True)`. -/
def assignAll (fitted : Fit α) (validIndices : List Nat) (assigned : Assigned α) : Except ClusterError (Assigned α) :=
  if validIndices.length = fitted.labels.length then (validIndices.zip fitted.labels).foldlM (assign fitted.centers) assigned
  else .error .zipMismatch

/-- `pa.array(centroids, type=pa.list_(pa.float32(), num_dimensions))`. -/
def paArray (centroids : Option (List (Option (List α)))) (numDimensions : Nat) :
    Except ClusterError (List (Option (List (Element α)))) :=
  match centroids with
  | none => .error .typeError
  | some centroids =>
    if ∀ centroid ∈ centroids, ∀ center, centroid = some center → center.length = numDimensions then
      .ok (centroids.map (Option.map (List.map Element.number)))
    else .error .arrowInvalid

section
variable (kmeans : KMeans α) (cluster : Cluster α β)

/-- The labels and the centroids of the rows. -/
def assigned (cells : List (Option (List (Element α)))) : Except ClusterError (Assigned α) :=
  let clusterIds := List.replicate cluster.input.height none
  if (points cells).isEmpty then .ok ⟨clusterIds, none⟩
  else
    match kmeans.fit cluster.numClusters cluster.maxIter cluster.numInit (points cells) with
    | none => .error .valueError
    | some fitted =>
      assignAll fitted (Mask.nonzero (cells.map isValidEmbedding))
        ⟨clusterIds, cluster.centroidInfo.map fun _ => List.replicate cluster.input.height none⟩

/-- The column of the centroids, if it is asked for. -/
def addCentroids (centroids : Option (List (Option (List α)))) (res : DataFrame α β) : Except ClusterError (DataFrame α β) :=
  match cluster.centroidInfo with
  | none => .ok res
  | some info => do
    let centroids ← paArray centroids info.numDimensions
    res.withColumn info.centroidColumn (.embeddings centroids)

/-- `execute`. -/
def execute : Except ClusterError (DataFrame α β) :=
  match cluster.input.column? cluster.embeddingColumnName with
  | some (.embeddings cells) => do
    let assigned ← cluster.assigned kmeans cells
    let res ← cluster.input.withColumn cluster.labelColumn (.labels assigned.clusterIds)
    cluster.addCentroids assigned.centroids res
  | _ => .error .columnNotFound

/-- The columns that are added. -/
def newFields : List String := cluster.labelColumn :: (cluster.centroidInfo.map CentroidInfo.centroidColumn).toList

end

end Cluster

/-! ## The plan -/

/-- `SemanticCluster`. `byExprName` is the text of the expression. -/
structure SemanticCluster where
  byExprName : String
  numClusters : Nat
  maxIter : Nat
  numInit : Nat
  labelColumn : String
  centroidColumn : Option String

/-- The values of an embedding expression: one for each row, as wide as its type says. -/
structure EmbeddingColumn (df : DataFrame α β) where
  dimensions : Nat
  cells : List (Option (List (Element α)))
  length : cells.length = df.height
  width : ∀ cell ∈ cells, ∀ elements, cell = some elements → elements.length = dimensions

namespace SemanticCluster

/-- `centroid_info`, made when the plan builds its schema. -/
def centroidInfo (plan : SemanticCluster) (dimensions : Nat) : Option CentroidInfo :=
  match plan.centroidColumn with
  | none => none
  | some centroidColumn => if centroidColumn = "" then none else some ⟨centroidColumn, dimensions⟩

/-- The columns that the plan adds to its schema. -/
def newFields (plan : SemanticCluster) (dimensions : Nat) : List String :=
  plan.labelColumn :: ((plan.centroidInfo dimensions).map CentroidInfo.centroidColumn).toList

/-- What is checked of a plan: the number of clusters is positive, and no name of the schema is there twice. -/
def Accepted (plan : SemanticCluster) (df : DataFrame α β) (dimensions : Nat) : Prop :=
  0 < plan.numClusters ∧ (df.columns.map Prod.fst ++ plan.newFields dimensions).Nodup

/-- The operator on the frame with the embeddings. -/
def toCluster (plan : SemanticCluster) (df : DataFrame α β) (dimensions : Nat) : Cluster α β :=
  Cluster.init df plan.byExprName plan.numClusters plan.maxIter plan.numInit plan.labelColumn (plan.centroidInfo dimensions)

/-- `SemanticClusterExec.execute_node`. -/
def executeNode (kmeans : KMeans α) (plan : SemanticCluster) (childDf : DataFrame α β) (byExpr : EmbeddingColumn childDf) :
    Except ClusterError (DataFrame α β) := do
  let df ← childDf.withColumn plan.byExprName (.embeddings byExpr.cells)
  let clusteredDf ← (plan.toCluster df byExpr.dimensions).execute kmeans
  -- the column that was added only to be clustered
  return if plan.byExprName ∈ childDf.columns.map Prod.fst then clusteredDf else clusteredDf.drop plan.byExprName

end SemanticCluster

end

end SemanticOperators

end Fenic
