import Fenic.Lib.Except
import Fenic.SemanticOperators.Cluster
import Mathlib.Data.List.Nodup

/-!
# `SemanticOperators.ClusterRows` — when the rows get their clusters

Only valid rows are points, so that k-means fails when there are rows without a valid embedding and more clusters are asked for
than there are points. Without any point the labels are null, and the centroids raise.
-/

namespace Fenic

namespace SemanticOperators

section
variable {α β : Type}

/-! ## Columns -/

namespace DataFrame

variable {column : Column α β}

theorem exists_withColumn {df : DataFrame α β} (h : column.length = df.height) (name : String) :
    ∃ df', df.withColumn name column = .ok df' := by
  unfold withColumn
  rw [dif_pos h]
  exact ⟨_, rfl⟩

variable {df' : DataFrame α β} {name : String}

theorem column?_of_withColumn {df : DataFrame α β}
    (h : df.withColumn name column = .ok df') (name' : String) :
    df'.column? name' = if name' = name then some column else df.column? name' := by
  unfold withColumn at h
  split at h
  · cases h
    exact Keyed.get_set name' name column df.columns
  · cases h

theorem height_of_withColumn {df : DataFrame α β}
    (h : df.withColumn name column = .ok df') : df'.height = df.height := by
  unfold withColumn at h
  split at h
  · cases h
    rfl
  · cases h

theorem names_of_withColumn {df : DataFrame α β}
    (h : df.withColumn name column = .ok df') :
    df'.columns.map Prod.fst = if name ∈ df.columns.map Prod.fst then df.columns.map Prod.fst
      else df.columns.map Prod.fst ++ [name] := by
  unfold withColumn at h
  split at h
  · cases h
    exact Keyed.keys_set name column df.columns
  · cases h

@[simp] theorem column?_drop (df : DataFrame α β) (name name' : String) :
    (df.drop name).column? name' = if name' = name then none else df.column? name' :=
  Keyed.get_delete (· = name) df.columns name'

theorem names_drop (df : DataFrame α β) (name : String) :
    (df.drop name).columns.map Prod.fst = (df.columns.map Prod.fst).filter (· ≠ name) := by
  show (df.columns.filter _).map Prod.fst = _
  rw [List.filter_map]
  rfl

end DataFrame

theorem SemanticCluster.numDimensions_of_centroidInfo (plan : SemanticCluster) {dimensions : Nat} {info : CentroidInfo}
    (h : plan.centroidInfo dimensions = some info) : info.numDimensions = dimensions := by
  unfold SemanticCluster.centroidInfo at h
  split at h
  · cases h
  · split at h
    · cases h
    · cases h
      rfl

/-! ## What is to hold -/

/-- The rows with their clusters, when `k` clusters are used: the columns of the input as they were, a label on each row that
    is valid, below `k`, and the centroids of the labels. -/
structure Clusters (kmeans : KMeans α) (plan : SemanticCluster) (df : DataFrame α β) (byExpr : EmbeddingColumn df) (k : Nat)
    (result : DataFrame α β) : Prop where
  height : result.height = df.height
  columns : result.columns.map Prod.fst = df.columns.map Prod.fst ++ plan.newFields byExpr.dimensions
  kept : ∀ name ∈ df.columns.map Prod.fst, result.column? name = df.column? name
  labels : ∃ labels, result.column? plan.labelColumn = some (.labels labels) ∧
    List.Forall₂ (fun cell label => label = none ↔ isValidEmbedding cell = false) byExpr.cells labels ∧
    (∀ label, some label ∈ labels → label < k) ∧
    ∀ info, plan.centroidInfo byExpr.dimensions = some info →
      ∃ centroids, result.column? info.centroidColumn = some (.embeddings centroids) ∧
        List.Forall₂ (fun label centroid => ∀ l, label = some l → ∃ fitted center,
          kmeans.fit k plan.maxIter plan.numInit (points byExpr.cells) = some fitted ∧ fitted.centers[l]? = some center ∧
            centroid = some (center.map Element.number)) labels centroids

/-- The operator returns the rows with their clusters. -/
def ClustersRows (kmeans : KMeans α) (plan : SemanticCluster) (df : DataFrame α β) (byExpr : EmbeddingColumn df) : Prop :=
  ∃ result, plan.executeNode kmeans df byExpr = .ok result ∧
    Clusters kmeans plan df byExpr (min plan.numClusters df.height) result

/-- There are points enough: none, and no centroids either, or as many as clusters are asked for, or all rows. -/
def EnoughPoints (plan : SemanticCluster) (df : DataFrame α β) (byExpr : EmbeddingColumn df) : Prop :=
  if points byExpr.cells = [] then plan.centroidInfo byExpr.dimensions = none
  else plan.numClusters ≤ (points byExpr.cells).length ∨ (points byExpr.cells).length = df.height

/-- The column with the embeddings is in the way of no other: it is none of the new ones, and as a column of the input it is
    that column. -/
def NameFree (plan : SemanticCluster) (df : DataFrame α β) (byExpr : EmbeddingColumn df) : Prop :=
  plan.byExprName ∉ plan.newFields byExpr.dimensions ∧
    (plan.byExprName ∈ df.columns.map Prod.fst → df.column? plan.byExprName = some (.embeddings byExpr.cells))

/-! ## The points -/

theorem length_points (cells : List (Option (List (Element α)))) :
    (points cells).length = (cells.map isValidEmbedding).count true := by
  rw [points, List.length_map, List.count_eq_countP, List.countP_map, List.countP_eq_length_filter]
  congr 2
  funext cell
  simp

/-- A valid embedding loses none of its elements. -/
theorem length_toPoint {elements : List (Element α)} (h : isValidEmbedding (some elements) = true) :
    (toPoint (some elements)).length = elements.length := by
  simp only [isValidEmbedding, Bool.and_eq_true, Bool.not_eq_true', List.any_eq_false] at h
  obtain ⟨hnull, hnan⟩ := h
  show (elements.filterMap Element.number?).length = elements.length
  induction elements with
  | nil => rfl
  | cons element elements ih =>
    have htail := ih (fun e he => hnull e (List.mem_cons_of_mem _ he)) fun e he => hnan e (List.mem_cons_of_mem _ he)
    cases element with
    | null => exact absurd rfl (hnull .null List.mem_cons_self)
    | nan => exact absurd rfl (hnan .nan List.mem_cons_self)
    | number x =>
      show (x :: elements.filterMap Element.number?).length = _
      rw [List.length_cons, htail, List.length_cons]

theorem width_points {df : DataFrame α β} (byExpr : EmbeddingColumn df) :
    ∀ point ∈ points byExpr.cells, point.length = byExpr.dimensions := by
  intro point hpoint
  obtain ⟨cell, hcell, rfl⟩ := List.mem_map.mp hpoint
  obtain ⟨hmem, hvalid⟩ := List.mem_filter.mp hcell
  cases cell with
  | none => cases hvalid
  | some elements => rw [length_toPoint hvalid, byExpr.width _ hmem elements rfl]

theorem length_points_le {df : DataFrame α β} (byExpr : EmbeddingColumn df) :
    (points byExpr.cells).length ≤ df.height := by
  rw [points, List.length_map, ← byExpr.length]
  exact List.length_filter_le _ _

/-! ## The labels -/

namespace Cluster

/-- The center of a label. -/
def centerOf (centers : List (List α)) (label : Nat) : List α := (centers[label]?).getD []

theorem foldlM_assign_ids (centers : List (List α)) (entries : List (Nat × Nat)) (clusterIds : List (Option Nat)) :
    entries.foldlM (assign centers) ⟨clusterIds, none⟩ = .ok ⟨Mask.setAll clusterIds entries, none⟩ := by
  induction entries generalizing clusterIds with
  | nil => rfl
  | cons entry entries ih =>
    exact ih _

theorem foldlM_assign_centroids {centers : List (List α)} {entries : List (Nat × Nat)}
    (h : ∀ entry ∈ entries, entry.2 < centers.length) (clusterIds : List (Option Nat)) (centroids : List (Option (List α))) :
    entries.foldlM (assign centers) ⟨clusterIds, some centroids⟩ =
      .ok ⟨Mask.setAll clusterIds entries,
        some (Mask.setAll centroids (entries.map fun entry => (entry.1, centerOf centers entry.2)))⟩ := by
  induction entries generalizing clusterIds centroids with
  | nil => rfl
  | cons entry entries ih =>
    have hcenter : centers[entry.2]? = some (centerOf centers entry.2) := by
      rw [centerOf, List.getElem?_eq_getElem (h entry List.mem_cons_self)]
      rfl
    have hassign : assign centers ⟨clusterIds, some centroids⟩ entry =
        .ok ⟨clusterIds.set entry.1 (some entry.2), some (centroids.set entry.1 (some (centerOf centers entry.2)))⟩ := by
      unfold assign
      rw [hcenter]
    rw [List.foldlM_cons, hassign]
    exact ih (fun entry' hentry' => h entry' (List.mem_cons_of_mem _ hentry')) _ _

/-- The labels on their rows, and the centers of the labels. -/
theorem assignAll_eq {fitted : Fit α} {mask : List Bool} (hlength : fitted.labels.length = mask.count true)
    (hbelow : ∀ label ∈ fitted.labels, label < fitted.centers.length) (info : Option CentroidInfo) :
    assignAll fitted (Mask.nonzero mask) ⟨List.replicate mask.length none, info.map fun _ => List.replicate mask.length none⟩ =
      .ok ⟨Mask.spread mask fitted.labels,
        info.map fun _ => (Mask.spread mask fitted.labels).map (Option.map (centerOf fitted.centers))⟩ := by
  have hids := Mask.setAll_nonzero hlength
  unfold assignAll
  rw [if_pos ((Mask.length_nonzero mask).trans hlength.symm)]
  cases info with
  | none =>
    rw [Option.map_none, foldlM_assign_ids, hids]
    rfl
  | some info =>
    have hentries : ∀ entry ∈ (Mask.nonzero mask).zip fitted.labels, entry.2 < fitted.centers.length :=
      fun entry hentry => hbelow entry.2 (List.of_mem_zip hentry).2
    have hmap : ((Mask.nonzero mask).zip fitted.labels).map (fun entry => (entry.1, centerOf fitted.centers entry.2)) =
        (Mask.nonzero mask).zip (fitted.labels.map (centerOf fitted.centers)) := by
      rw [List.zip_map_right]
      rfl
    rw [Option.map_some, foldlM_assign_centroids hentries, hids, hmap, Mask.setAll_nonzero (by rwa [List.length_map]),
      Mask.spread_map]
    rfl

/-- What the loop leaves for the rows. -/
structure AssignedRows (kmeans : KMeans α) (cluster : Cluster α β) (cells : List (Option (List (Element α)))) (width : Nat)
    (assigned : Assigned α) : Prop where
  length : assigned.clusterIds.length = cells.length
  labels : List.Forall₂ (fun cell label => label = none ↔ isValidEmbedding cell = false) cells assigned.clusterIds
  below : ∀ label, some label ∈ assigned.clusterIds → label < cluster.numClusters
  centroids : ∀ centroids, assigned.centroids = some centroids →
    (∀ centroid ∈ centroids, ∀ center, centroid = some center → center.length = width) ∧
      List.Forall₂ (fun label centroid => ∀ l, label = some l → ∃ fitted center,
        kmeans.fit cluster.numClusters cluster.maxIter cluster.numInit (points cells) = some fitted ∧
          fitted.centers[l]? = some center ∧ centroid = some center) assigned.clusterIds centroids

section
variable {kmeans : KMeans α} {cluster : Cluster α β} {cells : List (Option (List (Element α)))} {width : Nat}

/-- Without points there are no labels, and no list of centroids. -/
theorem assigned_of_no_points (h : points cells = []) :
    cluster.assigned kmeans cells = .ok ⟨List.replicate cluster.input.height none, none⟩ := by
  unfold assigned
  rw [h]
  rfl

theorem assignedRows_of_no_points (hlength : cells.length = cluster.input.height) (h : points cells = []) :
    AssignedRows kmeans cluster cells width ⟨List.replicate cluster.input.height none, none⟩ where
  length := by rw [List.length_replicate, hlength]
  labels := by
    rw [← hlength, List.forall₂_iff_get]
    refine ⟨List.length_replicate.symm, fun i hi _ => ?_⟩
    have hinvalid : isValidEmbedding (cells.get ⟨i, hi⟩) = false := by
      rw [points, List.map_eq_nil_iff, List.filter_eq_nil_iff] at h
      simpa using h _ (List.get_mem cells ⟨i, hi⟩)
    simpa using hinvalid
  below label hlabel := by
    rw [List.mem_replicate] at hlabel
    cases hlabel.2
  centroids := by simp

/-- More clusters than points. -/
theorem assigned_of_few_points (hne : points cells ≠ []) (h : (points cells).length < cluster.numClusters) :
    cluster.assigned kmeans cells = .error .valueError := by
  unfold assigned
  rw [if_neg (by simpa using hne), kmeans.fails _ _ _ h]

theorem assignedRows_spread {fitted : Fit α} (hcount : fitted.labels.length = (points cells).length)
    (hfit : kmeans.fit cluster.numClusters cluster.maxIter cluster.numInit (points cells) = some fitted)
    (hbelow : ∀ label ∈ fitted.labels, label < cluster.numClusters) (hcenters : fitted.centers.length = cluster.numClusters)
    (hwidths : ∀ center ∈ fitted.centers, center.length = width) (info : Option CentroidInfo) :
    AssignedRows kmeans cluster cells width ⟨Mask.spread (cells.map isValidEmbedding) fitted.labels,
      info.map fun _ => (Mask.spread (cells.map isValidEmbedding) fitted.labels).map (Option.map (centerOf fitted.centers))⟩ := by
  have hcenter : ∀ label ∈ fitted.labels, fitted.centers[label]? = some (centerOf fitted.centers label) := by
    intro label hlabel
    rw [centerOf, List.getElem?_eq_getElem (hcenters ▸ hbelow label hlabel)]
    rfl
  refine ⟨?_, ?_, fun label hlabel => hbelow label (Mask.mem_of_mem_spread hlabel), fun centroids hcentroids => ?_⟩
  · simp
  · exact List.forall₂_map_left_iff.mp (Mask.spread_none_iff (hcount.trans (length_points cells)))
  · obtain ⟨-, -, rfl⟩ := Option.map_eq_some_iff.mp hcentroids
    constructor
    · intro centroid hcentroid center hsome
      subst hsome
      obtain ⟨item, hitem, hmap⟩ := List.mem_map.mp hcentroid
      obtain ⟨label, rfl, rfl⟩ := Option.map_eq_some_iff.mp hmap
      exact hwidths _ (List.mem_of_getElem? (hcenter label (Mask.mem_of_mem_spread hitem)))
    · rw [List.forall₂_map_right_iff, List.forall₂_same]
      rintro item hitem label rfl
      exact ⟨fitted, _, hfit, hcenter label (Mask.mem_of_mem_spread hitem), rfl⟩

theorem exists_assignedRows (hlength : cells.length = cluster.input.height) (hne : points cells ≠ [])
    (hpos : 0 < cluster.numClusters) (h : cluster.numClusters ≤ (points cells).length)
    (hwidth : ∀ point ∈ points cells, point.length = width) :
    ∃ assigned, cluster.assigned kmeans cells = .ok assigned ∧ AssignedRows kmeans cluster cells width assigned ∧
      (cluster.centroidInfo.isSome → assigned.centroids.isSome) := by
  obtain ⟨fitted, hfit, hlabels, hbelow, hcenters, hwidths⟩ :=
    kmeans.fits cluster.numClusters cluster.maxIter cluster.numInit hpos h hwidth
  have hassign := assignAll_eq (hlabels.trans (length_points cells)) (fun label hlabel => hcenters ▸ hbelow label hlabel)
    cluster.centroidInfo
  rw [List.length_map, hlength] at hassign
  refine ⟨_, ?_, assignedRows_spread hlabels hfit hbelow hcenters hwidths cluster.centroidInfo, fun hsome => ?_⟩
  · unfold assigned
    rw [if_neg (by simpa using hne), hfit]
    exact hassign
  · rwa [Option.isSome_map]

end

/-! ## The columns of the result -/

section
variable {kmeans : KMeans α} {cluster : Cluster α β}

variable {res : DataFrame α β}

theorem execute_eq_ok {cells : List (Option (List (Element α)))}
    (hcells : cluster.input.column? cluster.embeddingColumnName = some (.embeddings cells)) :
    cluster.execute kmeans = .ok res ↔ ∃ assigned, cluster.assigned kmeans cells = .ok assigned ∧
      ∃ labelled, cluster.input.withColumn cluster.labelColumn (.labels assigned.clusterIds) = .ok labelled ∧
        cluster.addCentroids assigned.centroids labelled = .ok res := by
  unfold execute
  rw [hcells]
  simp only [Except.bind_eq_ok]

theorem addCentroids_eq_ok {info : CentroidInfo} (hinfo : cluster.centroidInfo = some info)
    {centroids : Option (List (Option (List α)))} {df : DataFrame α β} :
    cluster.addCentroids centroids df = .ok res ↔ ∃ cells, paArray centroids info.numDimensions = .ok cells ∧
      df.withColumn info.centroidColumn (.embeddings cells) = .ok res := by
  unfold addCentroids
  rw [hinfo]
  exact Except.bind_eq_ok

theorem addCentroids_of_none (hinfo : cluster.centroidInfo = none) (centroids : Option (List (Option (List α))))
    (df : DataFrame α β) : cluster.addCentroids centroids df = .ok df := by
  unfold addCentroids
  rw [hinfo]

/-- No new column takes the place of one that is there. -/
theorem kept_of_execute (h : cluster.execute kmeans = .ok res) {cells : List (Option (List (Element α)))}
    (hcells : cluster.input.column? cluster.embeddingColumnName = some (.embeddings cells))
    (hnew : (cluster.input.columns.map Prod.fst ++ cluster.newFields).Nodup) :
    res.height = cluster.input.height ∧ res.columns.map Prod.fst = cluster.input.columns.map Prod.fst ++ cluster.newFields ∧
      ∀ name, name ∉ cluster.newFields → res.column? name = cluster.input.column? name := by
  obtain ⟨assigned, -, labelled, hlabelled, hcentroids⟩ := (execute_eq_ok hcells).mp h
  have hlabel : cluster.labelColumn ∉ cluster.input.columns.map Prod.fst :=
    fun hmem => List.disjoint_of_nodup_append hnew hmem List.mem_cons_self
  have hnames := DataFrame.names_of_withColumn hlabelled
  rw [if_neg hlabel] at hnames
  cases hinfo : cluster.centroidInfo with
  | none =>
    rw [addCentroids_of_none hinfo] at hcentroids
    cases hcentroids
    refine ⟨DataFrame.height_of_withColumn hlabelled, ?_, fun name hname => ?_⟩
    · simp [newFields, hinfo, hnames]
    · rw [newFields, hinfo] at hname
      rw [DataFrame.column?_of_withColumn hlabelled, if_neg (by simpa using hname)]
  | some info =>
    obtain ⟨column, -, hcolumn⟩ := (addCentroids_eq_ok hinfo).mp hcentroids
    have hcentroid : info.centroidColumn ∉ labelled.columns.map Prod.fst := by
      rw [newFields, hinfo] at hnew
      rw [hnames]
      intro hmem
      rcases List.mem_append.mp hmem with hmem | hmem
      · exact List.disjoint_of_nodup_append hnew hmem (by simp)
      · have hne := (List.nodup_cons.mp hnew.of_append_right).1
        exact hne (by simpa using (List.mem_singleton.mp hmem).symm)
    have hnames' := DataFrame.names_of_withColumn hcolumn
    rw [if_neg hcentroid, hnames] at hnames'
    refine ⟨(DataFrame.height_of_withColumn hcolumn).trans (DataFrame.height_of_withColumn hlabelled), ?_, fun name hname => ?_⟩
    · simp [newFields, hinfo, hnames']
    · rw [newFields, hinfo] at hname
      simp only [Option.map_some, Option.toList_some, List.mem_cons, List.not_mem_nil, or_false, not_or] at hname
      rw [DataFrame.column?_of_withColumn hcolumn, if_neg hname.2, DataFrame.column?_of_withColumn hlabelled, if_neg hname.1]

/-- With the labels and centroids of all rows there are columns of them. -/
theorem execute_of_assignedRows {cells : List (Option (List (Element α)))} {width : Nat} {assigned : Assigned α}
    (hcells : cluster.input.column? cluster.embeddingColumnName = some (.embeddings cells))
    (hlength : cells.length = cluster.input.height) (hassigned : cluster.assigned kmeans cells = .ok assigned)
    (hrows : AssignedRows kmeans cluster cells width assigned)
    (hinfo : ∀ info, cluster.centroidInfo = some info → info.numDimensions = width ∧ assigned.centroids.isSome ∧
      info.centroidColumn ≠ cluster.labelColumn) :
    ∃ res, cluster.execute kmeans = .ok res ∧ res.column? cluster.labelColumn = some (.labels assigned.clusterIds) ∧
      ∀ info, cluster.centroidInfo = some info → ∃ centroids, assigned.centroids = some centroids ∧
        res.column? info.centroidColumn = some (.embeddings (centroids.map (Option.map (List.map Element.number)))) := by
  have hids : (Column.labels assigned.clusterIds : Column α β).length = cluster.input.height := hrows.length.trans hlength
  obtain ⟨labelled, hlabelled⟩ := DataFrame.exists_withColumn hids cluster.labelColumn
  have hlabel := DataFrame.column?_of_withColumn hlabelled cluster.labelColumn
  rw [if_pos rfl] at hlabel
  cases hnone : cluster.centroidInfo with
  | none =>
    refine ⟨labelled, (execute_eq_ok hcells).mpr ⟨assigned, hassigned, labelled, hlabelled, ?_⟩, hlabel, by simp⟩
    exact addCentroids_of_none hnone _ _
  | some info =>
    obtain ⟨hwidth, hsome, hne⟩ := hinfo info hnone
    obtain ⟨centroids, hcentroids⟩ := Option.isSome_iff_exists.mp hsome
    obtain ⟨hwidths, hforall⟩ := hrows.centroids centroids hcentroids
    have harray : paArray assigned.centroids info.numDimensions = .ok (centroids.map (Option.map (List.map Element.number))) := by
      rw [hcentroids, paArray, if_pos (hwidth ▸ hwidths)]
    have hheight : (Column.embeddings (centroids.map (Option.map (List.map Element.number))) : Column α β).length =
        labelled.height := by
      show (centroids.map _).length = labelled.height
      rw [List.length_map, ← hforall.length_eq, hrows.length, hlength, DataFrame.height_of_withColumn hlabelled]
    obtain ⟨res, hres⟩ := DataFrame.exists_withColumn hheight info.centroidColumn
    refine ⟨res, (execute_eq_ok hcells).mpr ⟨assigned, hassigned, labelled, hlabelled, ?_⟩, ?_, fun info' hinfo' => ?_⟩
    · exact (addCentroids_eq_ok hnone).mpr ⟨_, harray, hres⟩
    · rw [DataFrame.column?_of_withColumn hres, if_neg hne.symm, hlabel]
    · cases hinfo'
      exact ⟨centroids, hcentroids, (DataFrame.column?_of_withColumn hres _).trans (if_pos rfl)⟩

end

end Cluster

/-! ## The physical operator -/

theorem executeNode_eq_ok {kmeans : KMeans α} {plan : SemanticCluster} {df : DataFrame α β} {byExpr : EmbeddingColumn df}
    {result : DataFrame α β} :
    plan.executeNode kmeans df byExpr = .ok result ↔
      ∃ withExpr, df.withColumn plan.byExprName (.embeddings byExpr.cells) = .ok withExpr ∧
        ∃ clustered, (plan.toCluster withExpr byExpr.dimensions).execute kmeans = .ok clustered ∧
          result = if plan.byExprName ∈ df.columns.map Prod.fst then clustered else clustered.drop plan.byExprName := by
  unfold SemanticCluster.executeNode
  simp only [Except.bind_eq_ok, Except.pure_eq_ok, Except.ok.injEq, eq_comm (b := result)]

section
variable {kmeans : KMeans α} {plan : SemanticCluster} {df withExpr : DataFrame α β} {byExpr : EmbeddingColumn df}

theorem column?_byExpr (hexpr : df.withColumn plan.byExprName (.embeddings byExpr.cells) = .ok withExpr) :
    withExpr.column? plan.byExprName = some (.embeddings byExpr.cells) :=
  (DataFrame.column?_of_withColumn hexpr _).trans (if_pos rfl)

/-- What the operator does not fail on has points enough. -/
theorem enoughPoints_of_execute (hexpr : df.withColumn plan.byExprName (.embeddings byExpr.cells) = .ok withExpr)
    {clustered : DataFrame α β} (h : (plan.toCluster withExpr byExpr.dimensions).execute kmeans = .ok clustered) :
    EnoughPoints plan df byExpr := by
  obtain ⟨assigned, hassigned, labelled, -, hcentroids⟩ := (Cluster.execute_eq_ok (column?_byExpr hexpr)).mp h
  unfold EnoughPoints
  split
  next hnone =>
    rw [Cluster.assigned_of_no_points hnone] at hassigned
    cases hassigned
    by_contra hinfo
    obtain ⟨info, hinfo⟩ := Option.ne_none_iff_exists'.mp hinfo
    obtain ⟨cells, hcells, -⟩ := (Cluster.addCentroids_eq_ok hinfo).mp hcentroids
    cases hcells
  next hne =>
    by_contra hfew
    have hheight := DataFrame.height_of_withColumn hexpr
    have hle := length_points_le byExpr
    have hlt : (points byExpr.cells).length < (plan.toCluster withExpr byExpr.dimensions).numClusters := by
      show _ < min plan.numClusters withExpr.height
      omega
    rw [Cluster.assigned_of_few_points hne hlt] at hassigned
    cases hassigned

/-- With points enough all rows are assigned. -/
theorem exists_assignedRows_of_enoughPoints (kmeans : KMeans α) (hpos : 0 < plan.numClusters) (hheight : withExpr.height = df.height)
    (h : EnoughPoints plan df byExpr) :
    ∃ assigned, (plan.toCluster withExpr byExpr.dimensions).assigned kmeans byExpr.cells = .ok assigned ∧
      Cluster.AssignedRows kmeans (plan.toCluster withExpr byExpr.dimensions) byExpr.cells byExpr.dimensions assigned ∧
      ((plan.centroidInfo byExpr.dimensions).isSome → assigned.centroids.isSome) := by
  have hlength : byExpr.cells.length = withExpr.height := byExpr.length.trans hheight.symm
  unfold EnoughPoints at h
  split at h
  next hnone =>
    refine ⟨_, Cluster.assigned_of_no_points hnone, Cluster.assignedRows_of_no_points hlength hnone, fun hsome => ?_⟩
    rw [h] at hsome
    cases hsome
  next hne =>
    have hsome := List.length_pos_of_ne_nil hne
    have hle := length_points_le byExpr
    apply Cluster.exists_assignedRows hlength hne
    · show 0 < min plan.numClusters withExpr.height
      omega
    · show min plan.numClusters withExpr.height ≤ _
      omega
    · exact width_points byExpr

/-- Taking out the column that was added leaves the others. -/
theorem dropped_eq {res : DataFrame α β} (hexpr : df.withColumn plan.byExprName (.embeddings byExpr.cells) = .ok withExpr)
    {fields : List String} (hfree : plan.byExprName ∉ fields)
    (hnames : res.columns.map Prod.fst = withExpr.columns.map Prod.fst ++ fields) :
    (if plan.byExprName ∈ df.columns.map Prod.fst then res else res.drop plan.byExprName).columns.map Prod.fst =
        df.columns.map Prod.fst ++ fields ∧
      ∀ name ∈ df.columns.map Prod.fst ++ fields,
        (if plan.byExprName ∈ df.columns.map Prod.fst then res else res.drop plan.byExprName).column? name =
          res.column? name := by
  rw [DataFrame.names_of_withColumn hexpr] at hnames
  by_cases hmem : plan.byExprName ∈ df.columns.map Prod.fst
  · rw [if_pos hmem] at hnames
    rw [if_pos hmem]
    exact ⟨hnames, fun _ _ => rfl⟩
  · rw [if_neg hmem] at hnames
    rw [if_neg hmem]
    have hmem' : plan.byExprName ∉ df.columns.map Prod.fst ++ fields := by
      simp only [List.mem_append, not_or]
      exact ⟨hmem, hfree⟩
    constructor
    · rw [DataFrame.names_drop, hnames, List.append_assoc, List.filter_append, List.singleton_append,
        List.filter_cons_of_neg (by simp), ← List.filter_append, List.filter_eq_self]
      intro name hname
      simp only [decide_eq_true_eq]
      rintro rfl
      exact hmem' hname
    · intro name hname
      rw [DataFrame.column?_drop, if_neg]
      rintro rfl
      exact hmem' hname

/-- The new columns are new to the frame with the embeddings, too. -/
theorem nodup_withExpr (hexpr : df.withColumn plan.byExprName (.embeddings byExpr.cells) = .ok withExpr) {fields : List String}
    (hfree : plan.byExprName ∉ fields) (hnew : (df.columns.map Prod.fst ++ fields).Nodup) :
    (withExpr.columns.map Prod.fst ++ fields).Nodup := by
  rw [DataFrame.names_of_withColumn hexpr]
  split
  · exact hnew
  next hmem =>
    rw [List.append_assoc]
    apply List.nodup_middle.mpr
    refine List.nodup_cons.mpr ⟨?_, hnew⟩
    simp only [List.mem_append, not_or]
    exact ⟨hmem, hfree⟩

theorem nameFree_of_clusters {k : Nat} {result : DataFrame α β} (hnew : (df.columns.map Prod.fst ++ plan.newFields byExpr.dimensions).Nodup)
    (h : plan.executeNode kmeans df byExpr = .ok result) (hclusters : Clusters kmeans plan df byExpr k result) :
    NameFree plan df byExpr := by
  obtain ⟨withExpr, hexpr, clustered, hclustered, hresult⟩ := executeNode_eq_ok.mp h
  have hfree : plan.byExprName ∉ plan.newFields byExpr.dimensions := by
    intro hmem
    -- the new column is taken out again
    rw [if_neg fun hmem' => List.disjoint_of_nodup_append hnew hmem' hmem] at hresult
    have hdropped : plan.byExprName ∈ result.columns.map Prod.fst := by
      rw [hclusters.columns]
      exact List.mem_append_right _ hmem
    rw [hresult, DataFrame.names_drop] at hdropped
    simpa using (List.mem_filter.mp hdropped).2
  refine ⟨hfree, fun hmem => ?_⟩
  rw [if_pos hmem] at hresult
  obtain ⟨-, -, hkept⟩ := Cluster.kept_of_execute hclustered (column?_byExpr hexpr) (nodup_withExpr hexpr hfree hnew)
  have hexprKept : clustered.column? plan.byExprName = withExpr.column? plan.byExprName := hkept _ hfree
  rw [← hclusters.kept _ hmem, hresult, hexprKept, column?_byExpr hexpr]

theorem clustersRows_of_enoughPoints (haccepted : plan.Accepted df byExpr.dimensions) (henough : EnoughPoints plan df byExpr)
    (hname : NameFree plan df byExpr) : ClustersRows kmeans plan df byExpr := by
  obtain ⟨hpos, hnew⟩ := haccepted
  obtain ⟨hfree, hself⟩ := hname
  have hlength : (Column.embeddings byExpr.cells : Column α β).length = df.height := byExpr.length
  obtain ⟨withExpr, hexpr⟩ := DataFrame.exists_withColumn hlength plan.byExprName
  have hheight := DataFrame.height_of_withColumn hexpr
  obtain ⟨assigned, hassigned, hrows, hsome⟩ := exists_assignedRows_of_enoughPoints kmeans hpos hheight henough
  have hinfo : ∀ info, plan.centroidInfo byExpr.dimensions = some info → info.numDimensions = byExpr.dimensions ∧
      assigned.centroids.isSome ∧ info.centroidColumn ≠ plan.labelColumn := by
    intro info hinfo
    refine ⟨plan.numDimensions_of_centroidInfo hinfo, hsome (Option.isSome_iff_exists.mpr ⟨info, hinfo⟩), ?_⟩
    have hne := (List.nodup_cons.mp hnew.of_append_right).1
    rw [hinfo] at hne
    simpa [eq_comm] using hne
  obtain ⟨res, hres, hlabels, hcentroids⟩ := Cluster.execute_of_assignedRows (column?_byExpr hexpr)
    (byExpr.length.trans hheight.symm) hassigned hrows hinfo
  obtain ⟨hresHeight, hresNames, hkept⟩ := Cluster.kept_of_execute hres (column?_byExpr hexpr) (nodup_withExpr hexpr hfree hnew)
  obtain ⟨hnames, hcolumns⟩ := dropped_eq hexpr hfree hresNames
  refine ⟨_, executeNode_eq_ok.mpr ⟨withExpr, hexpr, res, hres, rfl⟩, ?_, hnames, fun name hname => ?_, ?_⟩
  · rw [← hheight]
    split <;> exact hresHeight
  · have hinput : res.column? name = withExpr.column? name :=
      hkept name fun hmem => List.disjoint_of_nodup_append hnew hname hmem
    rw [hcolumns name (List.mem_append_left _ hname), hinput, DataFrame.column?_of_withColumn hexpr]
    split
    next heq => rw [heq, hself (heq ▸ hname)]
    · rfl
  · refine ⟨assigned.clusterIds, ?_, hrows.labels, ?_, fun info hinfo' => ?_⟩
    · rw [hcolumns _ (List.mem_append_right _ List.mem_cons_self)]
      exact hlabels
    · rw [← hheight]
      exact hrows.below
    · obtain ⟨centroids, hassignedCentroids, hcolumn⟩ := hcentroids info hinfo'
      have hmem : info.centroidColumn ∈ plan.newFields byExpr.dimensions := by
        rw [SemanticCluster.newFields, hinfo']
        simp
      refine ⟨_, (hcolumns _ (List.mem_append_right _ hmem)).trans hcolumn, ?_⟩
      rw [List.forall₂_map_right_iff, ← hheight]
      refine (hrows.centroids centroids hassignedCentroids).2.imp fun label centroid hcentroid l hl => ?_
      obtain ⟨fitted, center, hfit, hcenter, rfl⟩ := hcentroid l hl
      exact ⟨fitted, center, hfit, hcenter, rfl⟩

end

/-- The rows get their clusters exactly when there are points enough, and the column of the embeddings is in no other's way. -/
theorem clustersRows_iff (kmeans : KMeans α) (plan : SemanticCluster) (df : DataFrame α β) (byExpr : EmbeddingColumn df)
    (haccepted : plan.Accepted df byExpr.dimensions) :
    ClustersRows kmeans plan df byExpr ↔ EnoughPoints plan df byExpr ∧ NameFree plan df byExpr := by
  constructor
  · rintro ⟨result, hresult, hclusters⟩
    obtain ⟨withExpr, hexpr, clustered, hclustered, -⟩ := executeNode_eq_ok.mp hresult
    exact ⟨enoughPoints_of_execute hexpr hclustered, nameFree_of_clusters haccepted.2 hresult hclusters⟩
  · rintro ⟨henough, hname⟩
    exact clustersRows_of_enoughPoints haccepted henough hname

end

/-! ## Two runs -/

/-- k-means that takes the first points for the centers; the points behind them get the last of the clusters. -/
def firstCenters : KMeans Int where
  fit k _ _ points :=
    if points.length < k then none else some ⟨(List.range points.length).map fun i => min i (k - 1), points.take k⟩
  fails _ _ _ _ h := if_pos h
  fits k _ _ width points hpos hle hwidth := by
    refine ⟨_, if_neg (Nat.not_lt.mpr hle), ?_, ?_, ?_, fun center hcenter => hwidth center (List.mem_of_mem_take hcenter)⟩
    · simp
    · intro label hlabel
      obtain ⟨i, -, rfl⟩ := List.mem_map.mp hlabel
      omega
    · rw [List.length_take, Nat.min_eq_left hle]

/-- Two rows, one of them without an embedding. -/
def twoRows : DataFrame Int Unit where
  height := 2
  columns := [("embedding", .embeddings [some [.number 3, .number 4], none])]
  lengths := by simp [Column.length]
  names := by simp

def twoEmbeddings : EmbeddingColumn twoRows where
  dimensions := 2
  cells := [some [.number 3, .number 4], none]
  length := rfl
  width := by simp

def clusterPlan (numClusters : Nat) : SemanticCluster :=
  ⟨"embedding", numClusters, 300, 1, "cluster_label", some "centroid"⟩

theorem accepted_clusterPlan {numClusters : Nat} (h : 0 < numClusters) : (clusterPlan numClusters).Accepted twoRows 2 :=
  ⟨h, by
    show (["embedding", "cluster_label", "centroid"] : List String).Nodup
    decide⟩

/-- One cluster of one point. -/
theorem clustersRows_one : ClustersRows firstCenters (clusterPlan 1) twoRows twoEmbeddings :=
  (clustersRows_iff firstCenters (clusterPlan 1) twoRows twoEmbeddings (accepted_clusterPlan (by decide))).mpr
    ⟨Or.inl (by decide), by decide, fun _ => rfl⟩

/-- Two clusters for two rows are too many for the one point. -/
theorem clusters_lost : ¬ ∀ (kmeans : KMeans Int) (plan : SemanticCluster) (df : DataFrame Int Unit)
    (byExpr : EmbeddingColumn df), plan.Accepted df byExpr.dimensions → ClustersRows kmeans plan df byExpr := by
  intro h
  obtain ⟨result, hresult, -⟩ := h firstCenters (clusterPlan 2) twoRows twoEmbeddings (accepted_clusterPlan (by decide))
  obtain ⟨withExpr, hexpr, clustered, hclustered, -⟩ := executeNode_eq_ok.mp hresult
  have henough : EnoughPoints (clusterPlan 2) twoRows twoEmbeddings := enoughPoints_of_execute hexpr hclustered
  have hpoints : points twoEmbeddings.cells = [[3, 4]] := rfl
  rw [EnoughPoints, hpoints, if_neg (by simp)] at henough
  exact absurd henough (by decide)

end SemanticOperators

end Fenic
