import Mathlib
import Fenic.Lineage.Graph

/-!
# `Lineage.Soundness` — the ids of a lineage graph

In the graph of a plan whose own columns stay clear of the four row id columns, the ids of every node are
unique, every id of a mapping table is one of the operator or of the child, and the two children of an
operator have no id in common. This holds of every plan that a graph can be built for, whether or not the
graph agrees with what the plan computes.

## Contents
- **Names.** The names a plan introduces; `Plan.ClearOfIds`.
- **Operators.** `Identified` frames, and what one operator makes of them (`unary_step`, `binary_step`).
- **Graphs.** `Sound` and `build_sound`.
-/

namespace Fenic

namespace Lineage

variable {V : Type}

/-! ## Names -/

/-- The columns that lineage adds. -/
def rowIdColumns : List String :=
  ["_uuid", "_backwards_uuid", "_left_uuid", "_right_uuid"]

/-- The names of columns that an operator brings in, or drops by name. -/
def UnaryExec.names : UnaryExec V → List String
  | projection projections => projections.map Projection.name
  | explode physicalExpr colName _ => [physicalExpr.name, colName]
  | explodeWithIndex physicalExpr colName indexName valueName _ =>
    [physicalExpr.name, colName, indexName, valueName]
  | unnest structs => structs.map Prod.fst ++ structs.flatMap Prod.snd
  | semanticCluster _ byExprName labelColumn _ centroids =>
    byExprName :: labelColumn :: (centroids.map Prod.fst).toList
  | aggregate groupExprs aggExprs => groupExprs.map RowExpr.name ++ aggExprs.map ReduceExpr.name
  | _ => []

def BinaryExec.names : BinaryExec V → List String
  | union => []
  | join op => op.scoreColumn.toList ++ op.dropsLeft ++ op.dropsRight

/-- The names of all columns in a plan, and in the cached frames it reads. -/
def Plan.names (store : Store V) : Plan V → List String
  | inMemorySource source => source.df.columns
  | scan _ df => df.columns
  | cacheRead cacheKey => ((store cacheKey).map DataFrame.columns).getD []
  | unary op _ child => op.names ++ child.names store
  | binary op _ left right => op.names ++ left.names store ++ right.names store

/-- The plan's own columns stay clear of the row id columns. -/
def ClearOfIds (names : List String) : Prop :=
  ∀ name ∈ names, name ∉ rowIdColumns

instance (names : List String) : Decidable (ClearOfIds names) :=
  inferInstanceAs (Decidable (∀ name ∈ names, name ∉ rowIdColumns))

variable {names : List String} {name : String}

theorem ClearOfIds.ne (h : ClearOfIds names) (hname : name ∈ names)
    (column : String) (hcolumn : column ∈ rowIdColumns) : name ≠ column :=
  fun heq => h name hname (heq ▸ hcolumn)

theorem ClearOfIds.left {names' : List String} (h : ClearOfIds (names ++ names')) : ClearOfIds names :=
  fun name hname => h name (List.mem_append_left _ hname)

theorem ClearOfIds.right {names' : List String} (h : ClearOfIds (names ++ names')) : ClearOfIds names' :=
  fun name hname => h name (List.mem_append_right _ hname)

/-- No row id column ends in the suffix of a join. -/
theorem suffix_clear (c : String) : c ++ "_right" ∉ rowIdColumns := by
  intro hmem
  have hends : ∀ name ∈ rowIdColumns, name.toList.getLast? = some 'd' := by decide
  have hlast := hends _ hmem
  simp at hlast

/-! ## Identified frames -/

/-- Every row of the frame has an id of its own, drawn from `lo` on and before `hi`. -/
structure Identified (lo hi : Nat) (f : Frame V) : Prop where
  le : lo ≤ hi
  hasId : "_uuid" ∈ f.columns
  clear : ∀ c ∈ f.columns, c ≠ "_uuid" → c ∉ rowIdColumns
  nodup : f.ids.Nodup
  fresh : ∀ id ∈ f.ids, ∃ n, id = .rowId n ∧ lo ≤ n ∧ n < hi

/-- A mapping table relates ids of an operator to ids of its child, or to nothing. -/
def MapsInto (mapping : Mapping V) (ids childIds : List (Cell V)) : Prop :=
  ∀ pair ∈ mapping, pair.1 ∈ ids ∧ (pair.2 ∈ childIds ∨ pair.2 = .null)

/-- What an operator does to the ids of its child. -/
structure StepOk (lo supply : Nat) (child : Frame V) (step : Step V (Mapping V)) : Prop where
  identified : Identified lo step.supply step.df
  mapsInto : MapsInto step.mappings step.df.ids child.ids
  supply_le : supply ≤ step.supply

/-- Giving ids to the rows of a frame. -/
theorem ids_withIds (supply : Nat) (f : Frame V) :
    (f.withIds supply).ids = (List.range' supply f.rows.length).map Cell.rowId := by
  have hzip : ∀ (rows : List (Row V)) (n : Nat),
      (List.zipWith (fun r n => Function.update r "_uuid" (Cell.rowId n)) rows
        (List.range' n rows.length)).map (fun r => r "_uuid") =
      (List.range' n rows.length).map (Cell.rowId (V := V)) := by
    intro rows
    induction rows with
    | nil => intro n; rfl
    | cons r rows ih =>
      intro n
      simp only [List.length_cons, List.range'_succ, List.zipWith_cons_cons, List.map_cons,
        Function.update_self, ih (n + 1)]
  exact hzip f.rows supply

theorem nodup_ids_withIds (supply : Nat) (f : Frame V) : (f.withIds supply).ids.Nodup := by
  rw [ids_withIds]
  exact (List.nodup_range' 1).map (fun n m h => Cell.rowId.inj h)

theorem fresh_ids_withIds (supply : Nat) (f : Frame V) :
    ∀ id ∈ (f.withIds supply).ids, ∃ n, id = .rowId n ∧ supply ≤ n ∧ n < supply + f.rows.length := by
  intro id hid
  rw [ids_withIds] at hid
  obtain ⟨n, hn, rfl⟩ := List.mem_map.mp hid
  have hrange := List.mem_range'_1.mp hn
  exact ⟨n, rfl, hrange.1, hrange.2⟩

theorem mem_withName {columns : List String} {c : String} :
    c ∈ Frame.withName columns name ↔ c ∈ columns ∨ c = name := by
  unfold Frame.withName
  split
  · rename_i hmem
    constructor
    · exact Or.inl
    · rintro (h | rfl)
      · exact h
      · exact hmem
  · rw [List.mem_append, List.mem_singleton]

variable {f : Frame V}

/-- A frame of data columns, with fresh ids. -/
theorem identified_withIds {supply lo : Nat} (hlo : lo ≤ supply)
    (hclear : ∀ c ∈ f.columns, c ≠ "_uuid" → c ∉ rowIdColumns) :
    Identified lo (supply + f.rows.length) (f.withIds supply) where
  le := by omega
  hasId := mem_withName.mpr (Or.inr rfl)
  clear := by
    intro c hc hne
    rcases mem_withName.mp hc with hc | hc
    · exact hclear c hc hne
    · exact absurd hc hne
  nodup := nodup_ids_withIds supply f
  fresh := by
    intro id hid
    obtain ⟨n, rfl, hge, hlt⟩ := fresh_ids_withIds supply f id hid
    exact ⟨n, rfl, by omega, hlt⟩

/-! ## Operators that keep the ids of their rows -/

variable {df : Frame V}

/-- The ids of the result are ids of the child, each at most as often. -/
theorem Identified.of_subperm {lo hi : Nat} {child : Frame V} (h : Identified lo hi child)
    (hids : df.ids.Subperm child.ids) (hasId : "_uuid" ∈ df.columns)
    (hclear : ∀ c ∈ df.columns, c ≠ "_uuid" → c ∉ rowIdColumns) : Identified lo hi df where
  le := h.le
  hasId := hasId
  clear := hclear
  nodup := by
    obtain ⟨ids, hperm, hsub⟩ := hids
    exact hperm.nodup_iff.mp (hsub.nodup h.nodup)
  fresh := fun id hid => h.fresh id (hids.subset hid)

/-- Such an operator is a good step. -/
theorem StepOk.of_subperm {lo supply : Nat} {child : Frame V} (h : Identified lo supply child)
    (hids : df.ids.Subperm child.ids) (hasId : "_uuid" ∈ df.columns)
    (hclear : ∀ c ∈ df.columns, c ≠ "_uuid" → c ∉ rowIdColumns) :
    StepOk lo supply child (keepIds supply df) where
  identified := h.of_subperm hids hasId hclear
  mapsInto := by
    intro pair hpair
    obtain ⟨r, hr, rfl⟩ := List.mem_map.mp hpair
    have hmem : r "_uuid" ∈ df.ids := List.mem_map_of_mem hr
    exact ⟨hmem, Or.inl (hids.subset hmem)⟩
  supply_le := Nat.le_refl supply

/-- Some rows of the child, with the child's columns. -/
theorem StepOk.of_sublist {lo supply : Nat} {child : Frame V} (h : Identified lo supply child)
    {rows : List (Row V)} (hrows : rows.Sublist child.rows) :
    StepOk lo supply child (keepIds supply ⟨child.columns, rows⟩) := by
  have hids : (rows.map (fun r => r "_uuid")).Sublist child.ids := hrows.map _
  exact StepOk.of_subperm h hids.subperm h.hasId h.clear

/-- `g` has the ids of `f` in the same order, and no columns but those of `f` and the named ones. -/
structure Extends (names : List String) (f g : Frame V) : Prop where
  ids_eq : g.ids = f.ids
  columns : ∀ c ∈ g.columns, c ∈ f.columns ∨ c ∈ names
  hasId : "_uuid" ∈ f.columns → "_uuid" ∈ g.columns

variable {g : Frame V}

theorem Extends.trans {h : Frame V} (hfg : Extends names f g)
    (hgh : Extends names g h) : Extends names f h where
  ids_eq := hgh.ids_eq.trans hfg.ids_eq
  columns := by
    intro c hc
    rcases hgh.columns c hc with hc | hc
    · exact hfg.columns c hc
    · exact Or.inr hc
  hasId := hgh.hasId ∘ hfg.hasId

theorem Extends.stepOk {lo supply : Nat} {child : Frame V}
    (hext : Extends names child df) (h : Identified lo supply child) (hclear : ClearOfIds names) :
    StepOk lo supply child (keepIds supply df) := by
  refine StepOk.of_subperm h (List.Perm.of_eq hext.ids_eq).subperm (hext.hasId h.hasId) (fun c hc hne => ?_)
  rcases hext.columns c hc with hc | hc
  · exact h.clear c hc hne
  · exact hclear c hc

theorem extends_map {columns : List String} {g : Row V → Row V}
    (hg : ∀ r, g r "_uuid" = r "_uuid") (hcolumns : ∀ c ∈ columns, c ∈ f.columns ∨ c ∈ names)
    (hasId : "_uuid" ∈ f.columns → "_uuid" ∈ columns) : Extends names f ⟨columns, f.rows.map g⟩ where
  ids_eq := by
    rw [Frame.ids, Frame.ids, List.map_map]
    exact List.map_congr_left (fun r _ => hg r)
  columns := hcolumns
  hasId := hasId

theorem extends_withColumn {e : RowExpr V}
    (hne : e.name ≠ "_uuid") (hname : e.name ∈ names) (h : f.withColumn e = some g) : Extends names f g := by
  unfold Frame.withColumn at h
  split at h
  · cases h
    refine extends_map (fun r => Function.update_of_ne hne.symm _ _) (fun c hc => ?_)
      (fun hmem => mem_withName.mpr (Or.inl hmem))
    rcases mem_withName.mp hc with hc | rfl
    · exact Or.inl hc
    · exact Or.inr hname
  · cases h

theorem extends_withSeries {cells : List (Cell V)}
    (hne : name ≠ "_uuid") (hname : name ∈ names) (h : f.withSeries name cells = some g) :
    Extends names f g := by
  unfold Frame.withSeries at h
  split at h
  · rename_i hlength
    cases h
    refine ⟨?_, fun c hc => ?_, fun hmem => mem_withName.mpr (Or.inl hmem)⟩
    · refine List.ext_getElem (by simp [Frame.ids, hlength]) (fun i hi hi' => ?_)
      simp [Frame.ids, Function.update_of_ne hne.symm]
    · rcases mem_withName.mp hc with hc | rfl
      · exact Or.inl hc
      · exact Or.inr hname
  · cases h

theorem extends_drop (f : Frame V) (hne : name ≠ "_uuid") :
    Extends names f (f.drop name) where
  ids_eq := rfl
  columns := fun c hc => Or.inl (List.mem_filter.mp hc).1
  hasId := fun hmem => List.mem_filter.mpr ⟨hmem, by simpa using hne.symm⟩

/-- `df.select` of a row-id column beside other projections keeps every row. -/
theorem selectHeight_append_column (projections : List (Projection V)) {height n : Nat}
    (h : Frame.selectHeight (projections ++ [.row (.column "_uuid")]) height = some n) : n = height := by
  unfold Frame.selectHeight at h
  rw [List.filterMap_append] at h
  split at h
  · rename_i hnil
    simp [Projection.length?] at hnil
  · rename_i m ms hcons
    split at h
    · rename_i hall
      cases h
      have hmem : height ∈ n :: ms := hcons ▸ List.mem_append_right _ (by simp [Projection.length?])
      rcases List.mem_cons.mp hmem with heq | hmem
      · exact heq.symm
      · exact (hall height hmem).symm
    · cases h

theorem rowAt_uuid {projections : List (Projection V)} (hclear : ClearOfIds (projections.map Projection.name))
    (rows : List (Row V)) (i : Nat) :
    Projection.rowAt (projections ++ [.row (.column "_uuid")]) rows i "_uuid" =
      (rows[i]?).elim .null (fun r => r "_uuid") := by
  have hnone : projections.find? (fun p => p.name == "_uuid") = none := by
    rw [List.find?_eq_none]
    intro p hp heq
    exact hclear.ne (List.mem_map_of_mem hp) "_uuid" (by decide) (by simpa using heq)
  unfold Projection.rowAt
  rw [List.find?_append, hnone, Option.none_or]
  rfl

section

variable {lo supply : Nat} {child : Frame V} {step : Step V (Mapping V)}

theorem projection_step [ColumnValue V] [DecidableEq V] {projections : List (Projection V)}
    (hclear : ClearOfIds (projections.map Projection.name)) (h : Identified lo supply child)
    (hstep : (UnaryExec.projection projections).lineage supply child = some step) :
    StepOk lo supply child step := by
  obtain ⟨df, hdf, rfl⟩ := Option.map_eq_some_iff.mp hstep
  unfold Frame.select at hdf
  split at hdf
  · obtain ⟨n, hn, hdf⟩ := Option.bind_eq_some_iff.mp hdf
    have hheight := selectHeight_append_column projections hn
    subst hheight
    unfold Frame.checkNames at hdf
    split at hdf
    · cases hdf
      refine StepOk.of_subperm h ?_ ?_ ?_
      · -- row for row, the ids are those of the child
        have hids : ((List.range child.rows.length).map (Projection.rowAt
            (projections ++ [Projection.row (.column "_uuid")]) child.rows)).map (fun r => r "_uuid") =
              child.ids := by
          refine List.ext_getElem (by simp [Frame.ids]) (fun i hi hi' => ?_)
          have hlt : i < child.rows.length := by simpa [Frame.ids] using hi'
          simp only [List.getElem_map, List.getElem_range, rowAt_uuid hclear,
            List.getElem?_eq_getElem hlt, Option.elim_some, Frame.ids]
        exact (List.Perm.of_eq hids).subperm
      · simp [Projection.name, RowExpr.name]
      · intro c hc hne
        rw [List.map_append, List.mem_append] at hc
        rcases hc with hc | hc
        · exact hclear c hc
        · exact absurd (by simpa [Projection.name, RowExpr.name] using hc) hne
    · cases hdf
  · cases hdf

theorem unnest_step [ColumnValue V] {structs : List (String × List String)}
    (hclear : ClearOfIds (structs.map Prod.fst ++ structs.flatMap Prod.snd)) (h : Identified lo supply child)
    {df : Frame V} (hdf : UnnestExec.executeNode structs child = some df) :
    StepOk lo supply child (keepIds supply df) := by
  have hfields : ∀ s ∈ structs, ∀ c ∈ s.2, c ∈ structs.flatMap Prod.snd :=
    fun s hs c hc => List.mem_flatMap.mpr ⟨s, hs, hc⟩
  unfold UnnestExec.executeNode at hdf
  split at hdf
  · unfold Frame.checkNames at hdf
    split at hdf
    · cases hdf
      have hext : Extends (structs.flatMap Prod.snd) child
          ⟨child.columns.flatMap (fun c => (structs.lookup c).getD [c]), child.rows.map (unnestRow structs)⟩ := by
        refine extends_map (fun r => ?_) (fun c hc => ?_) (fun hmem => ?_)
        · have hnone : structs.find? (fun s => s.2.contains "_uuid") = none := by
            rw [List.find?_eq_none]
            intro s hs hcontains
            have hmem := hfields s hs "_uuid" (by simpa using hcontains)
            exact hclear.right.ne hmem "_uuid" (by decide) rfl
          rw [unnestRow, hnone]
        · obtain ⟨c', hc', hmem⟩ := List.mem_flatMap.mp hc
          cases hlookup : structs.lookup c' with
          | none =>
            rw [hlookup, Option.getD_none, List.mem_singleton] at hmem
            exact Or.inl (hmem ▸ hc')
          | some fields =>
            rw [hlookup, Option.getD_some] at hmem
            exact Or.inr (hfields _ (Rows.mem_of_lookup hlookup) c hmem)
        · refine List.mem_flatMap.mpr ⟨"_uuid", hmem, ?_⟩
          cases hlookup : structs.lookup "_uuid" with
          | none => exact List.mem_singleton.mpr rfl
          | some fields =>
            have hname := List.mem_map_of_mem (f := Prod.fst) (Rows.mem_of_lookup hlookup)
            exact absurd rfl (hclear.left.ne hname "_uuid" (by decide))
      exact hext.stepOk h hclear.right
    · cases hdf
  · cases hdf

theorem semanticCluster_step {byExpr : RowExpr V} {byExprName labelColumn : String}
    {cluster : List (Cell V) → List (Option V)}
    {centroids : Option (String × (List (Cell V) → List (Option V)))}
    (hclear : ClearOfIds (byExprName :: labelColumn :: (centroids.map Prod.fst).toList))
    (h : Identified lo supply child) {df : Frame V}
    (hdf : SemanticClusterExec.executeNode byExpr byExprName labelColumn cluster centroids child = some df) :
    StepOk lo supply child (keepIds supply df) := by
  have hby : byExprName ≠ "_uuid" := hclear.ne List.mem_cons_self "_uuid" (by decide)
  have hlabel : labelColumn ≠ "_uuid" :=
    hclear.ne (List.mem_cons_of_mem _ List.mem_cons_self) "_uuid" (by decide)
  obtain ⟨withKey, hwithKey, hdf⟩ := Option.bind_eq_some_iff.mp hdf
  obtain ⟨labelled, hlabelled, hdf⟩ := Option.bind_eq_some_iff.mp hdf
  obtain ⟨clustered, hclustered, rfl⟩ := Option.map_eq_some_iff.mp hdf
  have hkey : Extends (byExprName :: labelColumn :: (centroids.map Prod.fst).toList) child withKey :=
    extends_withColumn (e := byExpr.alias byExprName) hby List.mem_cons_self hwithKey
  have hext := hkey.trans (extends_withSeries hlabel (List.mem_cons_of_mem _ List.mem_cons_self) hlabelled)
  have hcluster : Extends (byExprName :: labelColumn :: (centroids.map Prod.fst).toList) child clustered := by
    cases centroids with
    | none =>
      cases hclustered
      exact hext
    | some centroid =>
      have hmem : centroid.1 ∈ byExprName :: labelColumn :: [centroid.1] := by simp
      exact hext.trans (extends_withSeries (hclear.ne hmem "_uuid" (by decide)) hmem hclustered)
  split
  · exact hcluster.stepOk h hclear
  · exact (hcluster.trans (extends_drop clustered hby)).stepOk h hclear

/-! ## Operators that give new ids -/

variable {f : Frame V}

theorem mem_withIds_rows {r : Row V} (h : r ∈ (f.withIds supply).rows) :
    ∃ r₀ ∈ f.rows, ∃ n, r = Function.update r₀ "_uuid" (.rowId n) := by
  unfold Frame.withIds at h
  rw [← List.map_uncurry_zip_eq_zipWith] at h
  obtain ⟨⟨r₀, n⟩, hmem, rfl⟩ := List.mem_map.mp h
  exact ⟨r₀, (List.of_mem_zip hmem).1, n, rfl⟩

theorem renewIds_eq {renewed : Frame V} (h : f.renewIds supply = some renewed) :
    renewed = Frame.withIds supply ⟨Frame.withName f.columns "_backwards_uuid",
      f.rows.map (fun r => Function.update r "_backwards_uuid" (r "_uuid"))⟩ := by
  obtain ⟨w, hw, rfl⟩ := Option.map_eq_some_iff.mp h
  unfold Frame.withColumn at hw
  split at hw
  · cases hw
    rfl
  · cases hw

/-- New ids, with a mapping to the old ones. -/
theorem renewIds_spec {renewed : Frame V} (hlo : lo ≤ supply)
    (hclear : ∀ c ∈ f.columns, c ≠ "_uuid" → c ∉ rowIdColumns) (h : f.renewIds supply = some renewed) :
    Identified lo (supply + f.rows.length) (renewed.drop "_backwards_uuid") ∧
      MapsInto (renewed.mappingFrom "_backwards_uuid") renewed.ids f.ids := by
  have heq := renewIds_eq h
  subst heq
  refine ⟨⟨by omega, ?_, ?_, nodup_ids_withIds supply _, ?_⟩, ?_⟩
  · exact List.mem_filter.mpr ⟨mem_withName.mpr (Or.inr rfl), by decide⟩
  · intro c hc hne
    obtain ⟨hc, hback⟩ := List.mem_filter.mp hc
    rcases mem_withName.mp hc with hc | hc
    · rcases mem_withName.mp hc with hc | hc
      · exact hclear c hc hne
      · exact absurd hc (by simpa using hback)
    · exact absurd hc hne
  · intro id hid
    obtain ⟨n, rfl, hge, hlt⟩ := fresh_ids_withIds supply _ id hid
    rw [List.length_map] at hlt
    exact ⟨n, rfl, by omega, hlt⟩
  · intro pair hpair
    obtain ⟨r, hr, rfl⟩ := List.mem_map.mp hpair
    refine ⟨List.mem_map_of_mem hr, Or.inl ?_⟩
    obtain ⟨r₁, hr₁, n, rfl⟩ := mem_withIds_rows hr
    obtain ⟨r₀, hr₀, rfl⟩ := List.mem_map.mp hr₁
    exact List.mem_map_of_mem hr₀

/-- An operator that repeats and drops rows of its child. -/
theorem expandIds_step {df : Frame V} (h : Identified lo supply child) (hids : df.ids ⊆ child.ids)
    (hclear : ∀ c ∈ df.columns, c ≠ "_uuid" → c ∉ rowIdColumns) (hstep : expandIds supply df = some step) :
    StepOk lo supply child step := by
  obtain ⟨renewed, hrenewed, rfl⟩ := Option.map_eq_some_iff.mp hstep
  obtain ⟨hidentified, hmaps⟩ := renewIds_spec h.le hclear hrenewed
  refine ⟨hidentified, fun pair hpair => ?_, Nat.le_add_right _ _⟩
  obtain ⟨hid, hback⟩ := hmaps pair hpair
  exact ⟨hid, hback.imp_left (fun hmem => hids hmem)⟩

theorem dropNulls_ids_subset (name : String) (f : Frame V) : (f.dropNulls name).ids ⊆ f.ids :=
  ((List.filter_sublist).map _).subset

variable {colName : String} {keepNullAndEmpty : Bool}

theorem explode_ids_subset [ColumnValue V] {df : Frame V}
    (hne : colName ≠ "_uuid") (h : ExplodeExec.explode colName keepNullAndEmpty child = some df) :
    df.ids ⊆ child.ids ∧ df.columns = child.columns := by
  obtain ⟨exploded, hexploded, rfl⟩ := Option.map_eq_some_iff.mp h
  unfold Frame.explode at hexploded
  split at hexploded
  · cases hexploded
    have hids : (Frame.mk child.columns (child.rows.flatMap (fun r =>
        (Frame.explodeCell (r colName)).map (fun cell => Function.update r colName cell)))).ids ⊆ child.ids := by
      intro id hid
      obtain ⟨r, hr, rfl⟩ := List.mem_map.mp hid
      obtain ⟨r₀, hr₀, hr⟩ := List.mem_flatMap.mp hr
      obtain ⟨cell, -, rfl⟩ := List.mem_map.mp hr
      simp only [Function.update_of_ne hne.symm]
      exact List.mem_map_of_mem hr₀
    split
    · exact ⟨hids, rfl⟩
    · exact ⟨fun id hid => hids (dropNulls_ids_subset colName _ hid), rfl⟩
  · cases hexploded

theorem explode_step [ColumnValue V] [DecidableEq V] {physicalExpr : RowExpr V}
    (hclear : ClearOfIds [physicalExpr.name, colName])
    (h : Identified lo supply child)
    (hstep : (UnaryExec.explode physicalExpr colName keepNullAndEmpty).lineage supply child = some step) :
    StepOk lo supply child step := by
  obtain ⟨df, hdf, hstep⟩ := Option.bind_eq_some_iff.mp hstep
  have hne : colName ≠ "_uuid" := hclear.ne (by simp) "_uuid" (by decide)
  obtain ⟨hids, hcolumns⟩ := explode_ids_subset hne hdf
  exact expandIds_step h hids (hcolumns ▸ h.clear) hstep

theorem rename_spec {old new : String} {g : Frame V} (hne : new ≠ "_uuid")
    (h : f.rename old new = some g) : g.ids = f.ids ∧ ∀ c ∈ g.columns, c ∈ f.columns ∨ c = new := by
  unfold Frame.rename at h
  split at h
  · cases h
    refine ⟨?_, fun c hc => ?_⟩
    · rw [Frame.ids, Frame.ids, List.map_map]
      exact List.map_congr_left (fun r _ => Function.update_of_ne hne.symm _ _)
    · obtain ⟨c', hc', rfl⟩ := List.mem_map.mp hc
      split
      · exact Or.inr rfl
      · exact Or.inl hc'
  · cases h

theorem explodeWithIndex_step [ColumnValue V] [DecidableEq V] {physicalExpr : RowExpr V}
    {indexName valueName : String}
    (hclear : ClearOfIds [physicalExpr.name, colName, indexName, valueName]) (h : Identified lo supply child)
    (hstep : (UnaryExec.explodeWithIndex physicalExpr colName indexName valueName keepNullAndEmpty).lineage supply
      child = some step) : StepOk lo supply child step := by
  have hne : ∀ name ∈ [physicalExpr.name, colName, indexName, valueName], name ≠ "_uuid" :=
    fun name hname => hclear.ne hname "_uuid" (by decide)
  obtain ⟨df, hdf, hstep⟩ := Option.bind_eq_some_iff.mp hstep
  obtain ⟨withList, hwithList, hdf⟩ := Option.bind_eq_some_iff.mp hdf
  have hext : Extends [physicalExpr.name, colName, indexName, valueName] child withList :=
    extends_withColumn (hne _ (by simp)) (by simp) hwithList
  split at hdf
  · simp only at hdf
    obtain ⟨exploded, hexploded⟩ : ∃ exploded : Frame V, exploded = ⟨Frame.withName withList.columns indexName,
        withList.rows.flatMap fun r => (explodeCellWithIndex (r colName)).map fun pair =>
          Function.update (Function.update r indexName pair.2) colName pair.1⟩ := ⟨_, rfl⟩
    replace hdf : (if valueName ≠ colName then (if keepNullAndEmpty = true then exploded else exploded.dropNulls colName).rename
        colName valueName else some (if keepNullAndEmpty = true then exploded else exploded.dropNulls colName)) = some df := by
      rw [hexploded]
      exact hdf
    generalize hkept : (if keepNullAndEmpty = true then exploded else exploded.dropNulls colName) = kept at hdf
    have hids : exploded.ids ⊆ child.ids := by
      rw [← hext.ids_eq, hexploded]
      intro id hid
      obtain ⟨r, hr, rfl⟩ := List.mem_map.mp hid
      obtain ⟨r₀, hr₀, hr⟩ := List.mem_flatMap.mp hr
      obtain ⟨⟨item, index⟩, -, rfl⟩ := List.mem_map.mp hr
      have hcell : Function.update (Function.update r₀ indexName index) colName item "_uuid" = r₀ "_uuid" := by
        rw [Function.update_of_ne (hne colName (by simp)).symm,
          Function.update_of_ne (hne indexName (by simp)).symm]
      simp only [hcell]
      exact List.mem_map_of_mem hr₀
    have hcolumns : ∀ c ∈ exploded.columns, c ∈ child.columns ∨
        c ∈ [physicalExpr.name, colName, indexName, valueName] := by
      rw [hexploded]
      intro c hc
      rcases mem_withName.mp hc with hc | rfl
      · exact hext.columns c hc
      · exact Or.inr (by simp)
    have hkeptIds : kept.ids ⊆ child.ids ∧ kept.columns = exploded.columns := by
      rw [← hkept]
      split
      · exact ⟨hids, rfl⟩
      · exact ⟨fun id hid => hids (dropNulls_ids_subset colName _ hid), rfl⟩
    have hfinal : df.ids ⊆ child.ids ∧ ∀ c ∈ df.columns, c ∈ child.columns ∨
        c ∈ [physicalExpr.name, colName, indexName, valueName] := by
      split at hdf
      · obtain ⟨hrename, hnames⟩ := rename_spec (hne valueName (by simp)) hdf
        refine ⟨hrename ▸ hkeptIds.1, fun c hc => ?_⟩
        rcases hnames c hc with hc | rfl
        · exact hcolumns c (hkeptIds.2 ▸ hc)
        · exact Or.inr (by simp)
      · cases hdf
        exact ⟨hkeptIds.1, fun c hc => hcolumns c (hkeptIds.2 ▸ hc)⟩
    refine expandIds_step h hfinal.1 (fun c hc hcne => ?_) hstep
    rcases hfinal.2 c hc with hc | hc
    · exact h.clear c hc hcne
    · exact hclear c hc
  · cases hdf

theorem aggregate_step [DecidableEq V] {groupExprs : List (RowExpr V)} {aggExprs : List (ReduceExpr V)}
    (hclear : ClearOfIds (groupExprs.map RowExpr.name ++ aggExprs.map ReduceExpr.name))
    (h : Identified lo supply child)
    (hstep : AggregateExec.lineage groupExprs aggExprs supply child = some step) :
    StepOk lo supply child step := by
  obtain ⟨df, hdf, hstep⟩ := Option.bind_eq_some_iff.mp hstep
  split at hstep
  · cases hstep
  · cases hstep
    unfold AggregateExec.executeNode Frame.checkNames at hdf
    split at hdf
    · split at hdf
      · cases hdf
        refine ⟨identified_withIds h.le (fun c hc _ => hclear c hc), fun pair hpair => ?_, Nat.le_add_right _ _⟩
        obtain ⟨⟨id, group⟩, hzip, hpair⟩ := List.mem_flatMap.mp hpair
        obtain ⟨r, hr, rfl⟩ := List.mem_map.mp hpair
        obtain ⟨hid, hgroup⟩ := List.of_mem_zip hzip
        exact ⟨hid, Or.inl (List.mem_map_of_mem (Rows.mem_of_mem_groupsBy hgroup hr))⟩
      · cases hdf
    · cases hdf

/-- **A unary operator keeps its ids apart, and maps them into those of its child.** -/
theorem unary_step [ColumnValue V] [DecidableEq V] {op : UnaryExec V} (hclear : ClearOfIds op.names)
    (h : Identified lo supply child) (hstep : op.lineage supply child = some step) :
    StepOk lo supply child step := by
  cases op with
  | projection projections => exact projection_step hclear h hstep
  | explode physicalExpr colName keepNullAndEmpty => exact explode_step hclear h hstep
  | explodeWithIndex physicalExpr colName indexName valueName keepNullAndEmpty =>
    exact explodeWithIndex_step hclear h hstep
  | aggregate groupExprs aggExprs => exact aggregate_step hclear h hstep
  | filter predicate =>
    obtain ⟨df, hdf, rfl⟩ := Option.map_eq_some_iff.mp hstep
    simp only [UnaryExec.executeNode, Frame.filter] at hdf
    split at hdf
    · cases hdf
      exact StepOk.of_sublist h List.filter_sublist
    · cases hdf
  | limit n =>
    have hdf : keepIds supply (LimitExec.executeNode n child) = step := Option.some.inj hstep
    rw [← hdf]
    unfold LimitExec.executeNode
    split
    · exact StepOk.of_sublist h (List.take_sublist n _)
    · exact StepOk.of_sublist h (List.nil_sublist _)
  | dropDuplicates subset =>
    obtain ⟨df, hdf, rfl⟩ := Option.map_eq_some_iff.mp hstep
    simp only [UnaryExec.executeNode, DropDuplicatesExec.executeNode, Frame.unique] at hdf
    generalize (if 0 < subset.length then some subset else none : Option (List String)) = names at hdf
    split at hdf
    · cases hdf
      exact StepOk.of_sublist h (Rows.uniqueBy_sublist _ _)
    · cases hdf
  | sort cols order =>
    obtain ⟨df, hdf, rfl⟩ := Option.map_eq_some_iff.mp hstep
    simp only [UnaryExec.executeNode, SortExec.executeNode] at hdf
    split at hdf
    · cases hdf
      have hperm := order.perm (child.rows.map (fun r => cols.map (fun e => e.eval r)))
      rw [List.length_map] at hperm
      exact StepOk.of_subperm h ((Rows.pick_perm hperm).map _).subperm h.hasId h.clear
    · cases hdf
  | unnest structs =>
    obtain ⟨df, hdf, rfl⟩ := Option.map_eq_some_iff.mp hstep
    exact unnest_step hclear h hdf
  | semanticCluster byExpr byExprName labelColumn cluster centroids =>
    obtain ⟨df, hdf, rfl⟩ := Option.map_eq_some_iff.mp hstep
    exact semanticCluster_step hclear h hdf

end

/-! ## Binary operators -/

/-- What an operator does to the ids of its two children. -/
structure BinaryStepOk (lo supply : Nat) (left right : Frame V) (step : Step V (Mapping V × Mapping V)) :
    Prop where
  identified : Identified lo step.supply step.df
  mapsLeft : MapsInto step.mappings.1 step.df.ids left.ids
  mapsRight : MapsInto step.mappings.2 step.df.ids right.ids
  supply_le : supply ≤ step.supply

section

variable {lo supply : Nat} {left right : Frame V} {step : Step V (Mapping V × Mapping V)}

theorem union_rows {left right df : Frame V} (h : UnionExec.executeNode left right = some df) :
    df.columns = left.columns ∧ df.rows = left.rows ++ right.rows := by
  obtain ⟨aligned, haligned, hdf⟩ := Option.bind_eq_some_iff.mp h
  have hrows : aligned.rows = right.rows := by
    split at haligned
    · cases haligned
      rfl
    · unfold Frame.selectColumns Frame.checkNames at haligned
      split at haligned
      · split at haligned
        · cases haligned
          rfl
        · cases haligned
      · cases haligned
  unfold Frame.concat at hdf
  split at hdf
  · cases hdf
    exact ⟨rfl, congrArg (left.rows ++ ·) hrows⟩
  · cases hdf

variable {f : Frame V}

/-- The columns of a frame with renewed ids. -/
theorem renewIds_clear {renewed : Frame V} (hclear : ∀ c ∈ f.columns, c ≠ "_uuid" → c ∉ rowIdColumns)
    (h : f.renewIds supply = some renewed) :
    "_uuid" ∈ renewed.columns ∧
      ∀ c ∈ (renewed.drop "_backwards_uuid").columns, c ≠ "_uuid" → c ∉ rowIdColumns := by
  have hspec := (renewIds_spec (Nat.le_refl supply) hclear h).1
  exact ⟨(List.mem_filter.mp hspec.hasId).1, hspec.clear⟩

theorem renewIds_fresh {renewed : Frame V} (h : f.renewIds supply = some renewed) :
    renewed.ids.Nodup ∧ ∀ id ∈ renewed.ids, ∃ n, id = .rowId n ∧ supply ≤ n ∧ n < supply + f.rows.length := by
  have heq := renewIds_eq h
  subst heq
  refine ⟨nodup_ids_withIds supply _, fun id hid => ?_⟩
  obtain ⟨n, rfl, hge, hlt⟩ := fresh_ids_withIds supply _ id hid
  rw [List.length_map] at hlt
  exact ⟨n, rfl, hge, hlt⟩

theorem union_step (hlo : lo ≤ supply) (hleft : ∀ c ∈ left.columns, c ≠ "_uuid" → c ∉ rowIdColumns)
    (hright : ∀ c ∈ right.columns, c ≠ "_uuid" → c ∉ rowIdColumns)
    (hstep : UnionExec.lineage supply left right = some step) : BinaryStepOk lo supply left right step := by
  obtain ⟨leftDf, hleftDf, hstep⟩ := Option.bind_eq_some_iff.mp hstep
  obtain ⟨rightDf, hrightDf, hstep⟩ := Option.bind_eq_some_iff.mp hstep
  obtain ⟨df, hdf, rfl⟩ := Option.map_eq_some_iff.mp hstep
  obtain ⟨hcolumns, hrows⟩ := union_rows hdf
  have hids : (df.drop "_backwards_uuid").ids = leftDf.ids ++ rightDf.ids := by
    simp only [Frame.ids, Frame.drop, hrows, List.map_append]
  obtain ⟨hnodupLeft, hfreshLeft⟩ := renewIds_fresh hleftDf
  obtain ⟨hnodupRight, hfreshRight⟩ := renewIds_fresh hrightDf
  obtain ⟨hasId, hclear⟩ := renewIds_clear hleft hleftDf
  have hmapsLeft := (renewIds_spec (Nat.le_refl supply) hleft hleftDf).2
  have hmapsRight := (renewIds_spec (Nat.le_refl _) hright hrightDf).2
  refine ⟨⟨by simp only; omega, ?_, ?_, ?_, ?_⟩, ?_, ?_, by simp only; omega⟩
  · exact List.mem_filter.mpr ⟨hcolumns ▸ hasId, by decide⟩
  · intro c hc
    have hc' : c ∈ (leftDf.drop "_backwards_uuid").columns := by
      rw [Frame.drop, ← hcolumns]
      exact hc
    exact hclear c hc'
  · -- the ids of the two sides come from successive parts of the supply
    rw [hids, List.nodup_append]
    refine ⟨hnodupLeft, hnodupRight, fun id hid id' hid' heq => ?_⟩
    obtain ⟨n, rfl, -, hlt⟩ := hfreshLeft id hid
    obtain ⟨m, rfl, hge, -⟩ := hfreshRight id' hid'
    have hnm : n = m := Cell.rowId.inj heq
    omega
  · intro id hid
    rw [hids] at hid
    rcases List.mem_append.mp hid with hid | hid
    · obtain ⟨n, rfl, hge, hlt⟩ := hfreshLeft id hid
      exact ⟨n, rfl, by omega, by simp only; omega⟩
    · obtain ⟨n, rfl, hge, hlt⟩ := hfreshRight id hid
      exact ⟨n, rfl, by omega, by simp only; omega⟩
  · intro pair hpair
    obtain ⟨hid, hback⟩ := hmapsLeft pair hpair
    exact ⟨hids ▸ List.mem_append_left _ hid, hback⟩
  · intro pair hpair
    obtain ⟨hid, hback⟩ := hmapsRight pair hpair
    exact ⟨hids ▸ List.mem_append_right _ hid, hback⟩

/-- A side of a join, with its ids under another name. -/
structure Renamed (column : String) (f g : Frame V) : Prop where
  hasColumn : column ∈ g.columns
  columns : ∀ c ∈ g.columns, c = column ∨ c ∉ rowIdColumns
  cells : ∀ r ∈ g.rows, r column ∈ f.ids

theorem rename_renamed {column : String} {g : Frame V}
    (hclear : ∀ c ∈ f.columns, c ≠ "_uuid" → c ∉ rowIdColumns) (h : f.rename "_uuid" column = some g) :
    Renamed column f g := by
  unfold Frame.rename at h
  split at h
  · rename_i hcolumns
    cases h
    refine ⟨List.mem_map.mpr ⟨"_uuid", hcolumns.1, if_pos rfl⟩, fun c hc => ?_, fun r hr => ?_⟩
    · obtain ⟨c', hc', rfl⟩ := List.mem_map.mp hc
      by_cases huuid : c' = "_uuid"
      · exact Or.inl (if_pos huuid)
      · rw [if_neg huuid]
        exact Or.inr (hclear c' hc' huuid)
    · obtain ⟨r₀, hr₀, rfl⟩ := List.mem_map.mp hr
      rw [Function.update_self]
      exact List.mem_map_of_mem hr₀
  · cases h

theorem elim_row_mem {g : Frame V} {column : String} (hcells : ∀ r ∈ g.rows, r column ∈ f.ids)
    (i : Option Nat) :
    (i.bind (fun i => g.rows[i]?)).elim Cell.null (fun r => r column) ∈ f.ids ∨
      (i.bind (fun i => g.rows[i]?)).elim Cell.null (fun r => r column) = .null := by
  cases hrow : i.bind (fun i => g.rows[i]?) with
  | none => exact Or.inr rfl
  | some r =>
    obtain ⟨j, -, hj⟩ := Option.bind_eq_some_iff.mp hrow
    exact Or.inl (hcells r (List.mem_of_getElem? hj))

theorem join_step {op : JoinOp V} (hlo : lo ≤ supply) (hnames : ClearOfIds (BinaryExec.join op).names)
    (hleft : ∀ c ∈ left.columns, c ≠ "_uuid" → c ∉ rowIdColumns)
    (hright : ∀ c ∈ right.columns, c ≠ "_uuid" → c ∉ rowIdColumns)
    (hstep : op.lineage supply left right = some step) : BinaryStepOk lo supply left right step := by
  obtain ⟨leftDf, hleftDf, hstep⟩ := Option.bind_eq_some_iff.mp hstep
  obtain ⟨rightDf, hrightDf, hstep⟩ := Option.bind_eq_some_iff.mp hstep
  obtain ⟨joined, hjoined, hstep⟩ := Option.bind_eq_some_iff.mp hstep
  have hl := rename_renamed hleft hleftDf
  have hr := rename_renamed hright hrightDf
  have hscore : ∀ c ∈ op.scoreColumn.toList, c ∉ rowIdColumns := hnames.left.left
  have hdrops : ∀ c ∈ op.dropsLeft, c ∉ rowIdColumns := hnames.left.right
  split at hstep
  · cases hstep
    unfold JoinOp.executeNode Frame.checkNames at hjoined
    split at hjoined
    · split at hjoined
      · cases hjoined
        generalize op.pairs _ _ = pairs
        have hscoreNe : ∀ column ∈ rowIdColumns, op.scoreColumn ≠ some column := by
          intro column hcolumn heq
          exact hscore column (by simp [heq]) hcolumn
        have hleftName : "_left_uuid" ∈ op.leftNames leftDf := by
          refine List.mem_filter.mpr ⟨hl.hasColumn, ?_⟩
          simpa using fun hmem => hdrops "_left_uuid" hmem (by decide)
        have hrightName : "_right_uuid" ∉ op.leftNames leftDf := by
          intro hmem
          rcases hl.columns _ (List.mem_filter.mp hmem).1 with heq | hnot
          · exact absurd heq (by decide)
          · exact hnot (by decide)
        have hout : ∀ out source, (out, source) ∈ op.rightNames leftDf rightDf →
            out ∉ rowIdColumns ∨ (out = "_right_uuid" ∧ source = "_right_uuid") := by
          intro out source hmem
          obtain ⟨c, hc, heq⟩ := List.mem_map.mp hmem
          obtain ⟨rfl, rfl⟩ := Prod.mk.inj heq
          split
          · exact Or.inl (suffix_clear c)
          · rcases hr.columns c (List.mem_filter.mp hc).1 with rfl | hnot
            · exact Or.inr ⟨rfl, rfl⟩
            · exact Or.inl hnot
        refine ⟨⟨Nat.le_add_right_of_le hlo, ?_, ?_, nodup_ids_withIds supply _, ?_⟩, ?_, ?_,
          Nat.le_add_right _ _⟩
        · refine List.mem_filter.mpr ⟨List.mem_filter.mpr ⟨mem_withName.mpr (Or.inr rfl), by decide⟩, by decide⟩
        · intro c hc hne
          obtain ⟨hc, hneRight⟩ := List.mem_filter.mp hc
          obtain ⟨hc, hneLeft⟩ := List.mem_filter.mp hc
          rcases mem_withName.mp hc with hc | hc
          · rcases List.mem_append.mp hc with hc | hc
            · rcases List.mem_append.mp hc with hc | hc
              · rcases hl.columns c (List.mem_filter.mp hc).1 with rfl | hnot
                · simp at hneLeft
                · exact hnot
              · obtain ⟨⟨out, source⟩, hmem, rfl⟩ := List.mem_map.mp hc
                rcases hout out source hmem with hnot | ⟨rfl, -⟩
                · exact hnot
                · simp at hneRight
            · exact hscore c hc
          · exact absurd hc hne
        · intro id hid
          obtain ⟨n, rfl, hge, hlt⟩ := fresh_ids_withIds supply _ id hid
          exact ⟨n, rfl, by omega, hlt⟩
        · intro pair hpair
          obtain ⟨r, hmem, rfl⟩ := List.mem_map.mp hpair
          refine ⟨List.mem_map_of_mem hmem, ?_⟩
          obtain ⟨r₁, hr₁, n, rfl⟩ := mem_withIds_rows hmem
          obtain ⟨pair, -, rfl⟩ := List.mem_map.mp hr₁
          simp only [Function.update_of_ne (show "_left_uuid" ≠ "_uuid" by decide), JoinOp.joinRow,
            if_neg (hscoreNe "_left_uuid" (by decide)), if_pos hleftName]
          exact elim_row_mem hl.cells _
        · intro pair hpair
          obtain ⟨r, hmem, rfl⟩ := List.mem_map.mp hpair
          refine ⟨List.mem_map_of_mem hmem, ?_⟩
          obtain ⟨r₁, hr₁, n, rfl⟩ := mem_withIds_rows hmem
          obtain ⟨pair, -, rfl⟩ := List.mem_map.mp hr₁
          simp only [Function.update_of_ne (show "_right_uuid" ≠ "_uuid" by decide), JoinOp.joinRow,
            if_neg (hscoreNe "_right_uuid" (by decide)), if_neg hrightName]
          split
          · rename_i source hlookup
            rcases hout _ source (Rows.mem_of_lookup hlookup) with hnot | ⟨-, rfl⟩
            · exact absurd (by decide) hnot
            · exact elim_row_mem hr.cells _
          · exact Or.inr rfl
      · cases hjoined
    · cases hjoined
  · cases hstep

/-- **A binary operator keeps its ids apart, and maps them into those of its children.** -/
theorem binary_step {op : BinaryExec V} (hlo : lo ≤ supply) (hnames : ClearOfIds op.names)
    (hleft : ∀ c ∈ left.columns, c ≠ "_uuid" → c ∉ rowIdColumns)
    (hright : ∀ c ∈ right.columns, c ≠ "_uuid" → c ∉ rowIdColumns)
    (hstep : op.lineage supply left right = some step) : BinaryStepOk lo supply left right step := by
  cases op with
  | union => exact union_step hlo hleft hright hstep
  | join op => exact join_step hlo hnames hleft hright hstep

end

/-! ## Graphs -/

namespace OperatorLineage

/-- The row ids of an operator. -/
def ids (op : OperatorLineage V) : List (Cell V) :=
  op.materializeTable.ids

end OperatorLineage

/-- **A sound lineage graph**: at every operator the ids are unique, the mapping tables relate them to ids of
    the children, and different children have different ids. -/
inductive Sound : OperatorLineage V → Prop where
  | mk (df : Frame V) (children : List (Mapping V × OperatorLineage V)) (nodup : df.ids.Nodup)
      (rowIds : ∀ id ∈ df.ids, ∃ n, id = .rowId n) (arity : children.length ≤ 2)
      (mapsInto : ∀ edge ∈ children, MapsInto edge.1 df.ids edge.2.ids)
      (disjoint : children.Pairwise (fun edge edge' => List.Disjoint edge.2.ids edge'.2.ids))
      (sound : ∀ edge ∈ children, Sound edge.2) : Sound (.mk df children)

/-- What `build_node_lineage` returns. -/
structure BuiltOk (supply : Nat) (built : Built V) : Prop where
  table : built.operator.materializeTable = built.df
  identified : Identified supply built.supply built.df
  sound : Sound built.operator

theorem buildSource_ok {supply : Nat} {df : DataFrame V} (hclear : ClearOfIds df.columns) :
    BuiltOk supply (buildSource supply df.toFrame) := by
  have hidentified : Identified supply (supply + df.toFrame.rows.length) (df.toFrame.withIds supply) :=
    identified_withIds (Nat.le_refl supply) (fun c hc _ => hclear c hc)
  refine ⟨rfl, hidentified, .mk _ _ hidentified.nodup (fun id hid => ?_) (Nat.zero_le 2) ?_
    List.Pairwise.nil ?_⟩
  · obtain ⟨n, rfl, -⟩ := hidentified.fresh id hid
    exact ⟨n, rfl⟩
  · intro edge hedge
    cases hedge
  · intro edge hedge
    cases hedge

/-- **Every graph that is built is sound.** -/
theorem build_sound [ColumnValue V] [DecidableEq V] {store : Store V} {plan : Plan V} {supply : Nat}
    {built : Built V} (hclear : ClearOfIds (plan.names store))
    (h : plan.buildNodeLineage store supply = some built) : BuiltOk supply built := by
  induction plan generalizing supply built with
  | inMemorySource _ | scan _ _ =>
    cases h
    exact buildSource_ok hclear
  | cacheRead cacheKey =>
    obtain ⟨df, hdf, rfl⟩ := Option.map_eq_some_iff.mp h
    refine buildSource_ok ?_
    simpa only [Plan.names, hdf, Option.map_some, Option.getD_some] using hclear
  | unary op cacheKey child ih =>
    obtain ⟨builtChild, hchild, h⟩ := Option.bind_eq_some_iff.mp h
    obtain ⟨step, hstep, rfl⟩ := Option.map_eq_some_iff.mp h
    have hok := ih hclear.right hchild
    have hstepOk := unary_step hclear.left hok.identified hstep
    refine ⟨rfl, hstepOk.identified, .mk _ _ hstepOk.identified.nodup (fun id hid => ?_)
      (Nat.le_succ 1) ?_ (List.pairwise_singleton _ _) ?_⟩
    · obtain ⟨n, rfl, -⟩ := hstepOk.identified.fresh id hid
      exact ⟨n, rfl⟩
    · intro edge hedge
      rw [List.mem_singleton.mp hedge, OperatorLineage.ids, hok.table]
      exact hstepOk.mapsInto
    · intro edge hedge
      rw [List.mem_singleton.mp hedge]
      exact hok.sound
  | binary op cacheKey left right ihLeft ihRight =>
    obtain ⟨builtLeft, hleft, h⟩ := Option.bind_eq_some_iff.mp h
    obtain ⟨builtRight, hright, h⟩ := Option.bind_eq_some_iff.mp h
    obtain ⟨step, hstep, rfl⟩ := Option.map_eq_some_iff.mp h
    have hokLeft := ihLeft hclear.left.right hleft
    have hokRight := ihRight hclear.right hright
    have hlo : supply ≤ builtRight.supply := Nat.le_trans hokLeft.identified.le hokRight.identified.le
    have hstepOk := binary_step hlo hclear.left.left hokLeft.identified.clear hokRight.identified.clear hstep
    refine ⟨rfl, hstepOk.identified, .mk _ _ hstepOk.identified.nodup (fun id hid => ?_)
      (Nat.le_refl 2) ?_ ?_ ?_⟩
    · obtain ⟨n, rfl, -⟩ := hstepOk.identified.fresh id hid
      exact ⟨n, rfl⟩
    · intro edge hedge
      rcases List.mem_cons.mp hedge with rfl | hedge
      · rw [OperatorLineage.ids, hokLeft.table]
        exact hstepOk.mapsLeft
      · rw [List.mem_singleton.mp hedge, OperatorLineage.ids, hokRight.table]
        exact hstepOk.mapsRight
    · -- the left child was built from an earlier part of the supply
      refine List.pairwise_pair.mpr (fun id hid hid' => ?_)
      rw [OperatorLineage.ids, hokLeft.table] at hid
      rw [OperatorLineage.ids, hokRight.table] at hid'
      obtain ⟨n, rfl, -, hlt⟩ := hokLeft.identified.fresh id hid
      obtain ⟨m, heq, hge, -⟩ := hokRight.identified.fresh _ hid'
      have hnm : n = m := Cell.rowId.inj heq
      omega
    · intro edge hedge
      rcases List.mem_cons.mp hedge with rfl | hedge
      · exact hokLeft.sound
      · rw [List.mem_singleton.mp hedge]
        exact hokRight.sound

end Lineage

end Fenic
