import Fenic.Mcp.BoundExpressions

/-!
# `Mcp.BoundSchemas` — when a bound plan keeps its schemas

The nodes of a bound plan keep the schemas that they were built with. `PlanClass.Keeps` says of a node when its attributes
still make that schema: no placeholder is printed in the name of a column, and no type changes that the schema or a check
depends on. `bound_consistent_iff` puts the nodes of a plan together.
-/

namespace Fenic

open Expressions PlanSchema

variable {Func Model Series : Type} [TypeRules Func Model Series]

/-! ## What a node needs -/

namespace PlanSchema

/-- The type of the expression does not depend on the texts of the placeholders. -/
def KeepsType (x : PlaceholderText) (schema : Schema) (e : Expressions.LogicalExpr Func Model Series) : Prop :=
  e.typeAs x schema = e.logicalType schema

/-- No placeholder is printed in the name of the column, and the type is kept. -/
def KeepsColumn (x : PlaceholderText) (schema : Schema) (e : Expressions.LogicalExpr Func Model Series) : Prop :=
  e.namesPlaceholder = false ∧ KeepsType x schema e

/-- The column is kept, or it is exploded into a column that has the type of the elements already, before and after. -/
def KeepsExploded (x : PlaceholderText) (schema : Schema) (e : Expressions.LogicalExpr Func Model Series) : Prop :=
  KeepsColumn x schema e ∨
    ∃ t u, e.logicalType schema = some (.arrayType t) ∧ e.typeAs x schema = some (.arrayType u) ∧
      ⟨e.columnFieldName, t⟩ ∈ schema ∧ ⟨e.columnFieldNameAs x, u⟩ ∈ schema

/-- The values of an explode with index are put at the end: the exploded column is new, or the last one under another
    name than theirs. -/
def PutsLast (schema : Schema) (valueName name : String) : Prop :=
  name ∈ schema.columnNames → name ≠ valueName ∧ schema.columnNames.getLast? = some name

/-- The type is kept, and so is the place of the values. -/
def KeepsValues (x : PlaceholderText) (schema : Schema) (e : Expressions.LogicalExpr Func Model Series)
    (valueName : String) : Prop :=
  KeepsType x schema e ∧ (e.namesPlaceholder = false ∨
    (PutsLast schema valueName e.columnFieldName ∧ PutsLast schema valueName (e.columnFieldNameAs x)))

/-- The vectors are embeddings, of the same kind where a column of centroids is asked for. -/
def KeepsCentroids (x : PlaceholderText) (schema : Schema) (e : Expressions.LogicalExpr Func Model Series)
    (centroidColumn : Option String) : Prop :=
  (∃ dimensions embeddingModel, e.typeAs x schema = some (.embeddingType dimensions embeddingModel)) ∧
    ((∃ name, centroidColumn = some name ∧ name ≠ "") → KeepsType x schema e)

/-- Both keys have a type, and it is the same. -/
def ComparableAs (x : PlaceholderText) (left right : Schema)
    (key : Expressions.LogicalExpr Func Model Series × Expressions.LogicalExpr Func Model Series) : Prop :=
  (key.1.typeAs x left).isSome ∧ key.1.typeAs x left = key.2.typeAs x right

/-- With a text for each placeholder, the attributes of the node make the same schema. -/
def PlanClass.Keeps (x : PlaceholderText) (inputs : List Schema) : PlanClass Func Model Series → Prop
  | .projection exprs => ∀ s ∈ inputs, ∀ e ∈ exprs, KeepsColumn x s e
  | .filter predicate => ∀ s ∈ inputs, KeepsType x s predicate
  | .explode expr _ => ∀ s ∈ inputs, KeepsExploded x s expr
  | .explodeWithIndex expr _ valueName _ => ∀ s ∈ inputs, KeepsValues x s expr valueName
  | .semanticCluster byExpr _ centroidColumn => ∀ s ∈ inputs, KeepsCentroids x s byExpr centroidColumn
  | .aggregate groupExprs aggExprs =>
    ∀ s ∈ inputs, (∀ e ∈ groupExprs, KeepsColumn x s e) ∧ ∀ agg ∈ aggExprs, KeepsType x s agg.2
  | .join leftOn rightOn _ =>
    ∀ left right, inputs = [left, right] → ∀ key ∈ leftOn.zip rightOn, ComparableAs x left right key
  | .semanticJoin leftOn rightOn takes =>
    ∀ left right, inputs = [left, right] →
      ∃ t u, leftOn.typeAs x left = some t ∧ rightOn.typeAs x right = some u ∧ takes t u = true
  | .semanticSimilarityJoin leftOn rightOn _ =>
    ∀ left right, inputs = [left, right] →
      ∃ dimensions embeddingModel, leftOn.typeAs x left = some (.embeddingType dimensions embeddingModel) ∧
        rightOn.typeAs x right = some (.embeddingType dimensions embeddingModel)
  -- the other nodes make their schemas without their expressions
  | _ => True

end PlanSchema

namespace Mcp

section

variable {resolve : Resolution} (hresolve : resolve.Typed) {schema s : Schema} {e e' : Expressions.LogicalExpr Func Model Series}

/-! ## Columns -/

omit [TypeRules Func Model Series] in
theorem isScalar_transform [Signatures Func Model Series] (h : transformExpr resolve e = some e') (functionName : String) :
    isScalar e' functionName = isScalar e functionName :=
  transformExpr_head (f := fun head => isScalar (.node head []) functionName) (fun _ _ _ => rfl) h

variable {f : ColumnField}

include hresolve in
theorem toColumnField_transform (htyped : e.toColumnField schema = some f)
    (h : transformExpr resolve e = some e') :
    e'.toColumnField schema = (e.typeAs (literalText Func Model Series resolve) schema).map fun t =>
      ⟨e.columnFieldNameAs (literalText Func Model Series resolve), t⟩ := by
  obtain ⟨t, ht, -⟩ := Option.map_eq_some_iff.mp htyped
  rw [Expressions.LogicalExpr.toColumnField, logicalType_transform hresolve schema e ht h, columnFieldName_transform e h]

theorem columnFieldNameAs_literalText_eq_iff :
    e.columnFieldNameAs (literalText Func Model Series resolve) = e.columnFieldName ↔ e.namesPlaceholder = false := by
  rw [← Expressions.LogicalExpr.columnFieldNameAs_placeholderText, eq_comm]
  exact Expressions.LogicalExpr.columnFieldNameAs_eq_iff (placeholderText_different resolve)

include hresolve in
/-- A bound expression makes the column that was planned, when it keeps it. -/
theorem toColumnField_transform_iff (htyped : e.toColumnField schema = some f)
    (h : transformExpr resolve e = some e') :
    e'.toColumnField schema = some f ↔ KeepsColumn (literalText Func Model Series resolve) schema e := by
  rw [toColumnField_transform hresolve htyped h]
  obtain ⟨t, ht, rfl⟩ := Option.map_eq_some_iff.mp htyped
  rw [Option.map_eq_some_iff]
  simp only [ColumnField.mk.injEq, columnFieldNameAs_literalText_eq_iff]
  constructor
  · rintro ⟨u, hu, hname, rfl⟩
    exact ⟨hname, hu.trans ht.symm⟩
  · rintro ⟨hname, htype⟩
    exact ⟨t, htype.trans ht, hname, rfl⟩

variable {t : DataType}

include hresolve in
theorem logicalType_transform_iff (htyped : e.logicalType schema = some t)
    (h : transformExpr resolve e = some e') :
    e'.logicalType schema = some t ↔ KeepsType (literalText Func Model Series resolve) schema e := by
  rw [logicalType_transform hresolve schema e htyped h, KeepsType, htyped]

/-! ## Nodes over one input -/

theorem all_isScalar_transform {exprs exprs' : List (Expressions.LogicalExpr Func Model Series)}
    (h : exprs.mapM (transformExpr resolve) = some exprs') (functionName : String) :
    (exprs'.all fun e => isScalar e functionName) = exprs.all fun e => isScalar e functionName := by
  have hmap := Rows.map_of_mapM (p := fun e => isScalar e functionName) (g := fun e => isScalar e functionName)
    (fun e e' he => isScalar_transform he functionName) h
  have hall := congrArg (List.all · id) hmap
  simpa [List.all_map, Function.comp_def] using hall

include hresolve in
theorem projectionSchema_transform_iff {exprs exprs' : List (Expressions.LogicalExpr Func Model Series)}
    (hs : projectionSchema schema exprs = some s) (h : exprs.mapM (transformExpr resolve) = some exprs') :
    projectionSchema schema exprs' = some s ↔
      ∀ e ∈ exprs, KeepsColumn (literalText Func Model Series resolve) schema e := by
  obtain ⟨hscalar, hs⟩ := Option.ite_none_right_eq_some.mp hs
  obtain ⟨fields, hfields, hs⟩ := Option.bind_eq_some_iff.mp hs
  obtain ⟨rfl, hnodup⟩ := Schema.validated_eq_some.mp hs
  rw [← Rows.mapM_image_iff (fun e f e' hf he => toColumnField_transform_iff hresolve hf he) hfields h, projectionSchema,
    if_pos ((all_isScalar_transform h _).trans hscalar), Option.bind_eq_some_iff]
  constructor
  · rintro ⟨columns, hcolumns, hvalid⟩
    rw [hcolumns, (Schema.validated_eq_some.mp hvalid).1]
  · exact fun hcolumns => ⟨fields, hcolumns, hs⟩

include hresolve in
theorem filterSchema_transform_iff (hs : filterSchema schema e = some s) (h : transformExpr resolve e = some e') :
    filterSchema schema e' = some s ↔ KeepsType (literalText Func Model Series resolve) schema e := by
  obtain ⟨⟨hscalar, htype⟩, hs⟩ := Option.ite_none_right_eq_some.mp hs
  rw [← logicalType_transform_iff hresolve htype h, filterSchema, isScalar_transform h, Option.ite_none_right_eq_some]
  exact ⟨fun hnew => hnew.1.2, fun hnew => ⟨⟨hscalar, hnew⟩, hs⟩⟩

/-! ### Explodes -/

theorem explodeSchema_eq_some_iff {e : Expressions.LogicalExpr Func Model Series} {s : Schema} :
    explodeSchema schema e = some s ↔ isScalar e "explode" = true ∧
      ∃ name t, e.toColumnField schema = some ⟨name, .arrayType t⟩ ∧ schema.withColumn ⟨name, t⟩ = s ∧ s.columnNames.Nodup := by
  rw [explodeSchema, Option.ite_none_right_eq_some]
  apply and_congr_right
  intro _
  constructor
  · intro h
    split at h
    next name t hfield =>
        obtain ⟨rfl, hnodup⟩ := Schema.validated_eq_some.mp h
        exact ⟨name, t, hfield, rfl, hnodup⟩
    next => cases h
  · rintro ⟨name, t, hfield, rfl, hnodup⟩
    rw [hfield]
    exact Schema.validated_eq_some.mpr ⟨rfl, hnodup⟩

/-- A column in the place of itself changes nothing. -/
theorem withColumn_of_mem (hnodup : schema.columnNames.Nodup) (h : f ∈ schema) :
    schema.withColumn f = schema := by
  have hname : f.name ∈ schema.columnNames := List.mem_map_of_mem h
  rw [Schema.withColumn, if_pos hname]
  refine (List.map_congr_left fun g hg => ?_).trans (List.map_id _)
  show (if g.name = f.name then f else g) = g
  split
  next hname => exact List.inj_on_of_nodup_map hnodup h hg hname.symm
  next => rfl

theorem mem_withColumn {g : ColumnField} (h : g ∈ schema.withColumn f) : g = f ∨ g ∈ schema := by
  unfold Schema.withColumn at h
  split at h
  · obtain ⟨g', hg', rfl⟩ := List.mem_map.mp h
    split
    · exact Or.inl rfl
    · exact Or.inr hg'
  · rcases List.mem_append.mp h with h | h
    · exact Or.inr h
    · exact Or.inl (List.mem_singleton.mp h)

theorem self_mem_withColumn (schema : Schema) (f : ColumnField) : f ∈ schema.withColumn f := by
  unfold Schema.withColumn
  split
  next h =>
      obtain ⟨g, hg, hname⟩ := List.mem_map.mp h
      exact List.mem_map.mpr ⟨g, hg, if_pos hname⟩
  next => exact List.mem_append_right _ (List.mem_singleton_self f)

/-- Two columns make one schema when they are equal, or both are in it already. -/
theorem withColumn_eq_iff {g : ColumnField} (hnodup : schema.columnNames.Nodup) :
    schema.withColumn g = schema.withColumn f ↔ g = f ∨ (f ∈ schema ∧ g ∈ schema) := by
  constructor
  · intro h
    rw [or_iff_not_imp_left]
    intro hne
    have hf := mem_withColumn (h ▸ self_mem_withColumn schema f : f ∈ schema.withColumn g)
    have hg := mem_withColumn (h ▸ self_mem_withColumn schema g : g ∈ schema.withColumn f)
    exact ⟨hf.resolve_left fun heq => hne heq.symm, hg.resolve_left hne⟩
  · rintro (rfl | ⟨hf, hg⟩)
    · rfl
    · rw [withColumn_of_mem hnodup hf, withColumn_of_mem hnodup hg]

include hresolve in
theorem explodeSchema_transform_iff (hnodup : schema.columnNames.Nodup) (hs : explodeSchema schema e = some s)
    (h : transformExpr resolve e = some e') :
    explodeSchema schema e' = some s ↔ KeepsExploded (literalText Func Model Series resolve) schema e := by
  obtain ⟨hscalar, name, t, hfield, rfl, hs⟩ := explodeSchema_eq_some_iff.mp hs
  obtain ⟨t', htype, heq⟩ := Option.map_eq_some_iff.mp hfield
  cases heq
  rw [explodeSchema_eq_some_iff, isScalar_transform h, toColumnField_transform hresolve hfield h]
  constructor
  · rintro ⟨-, name, u, hbound, hcolumns, -⟩
    obtain ⟨u', hu, heq⟩ := Option.map_eq_some_iff.mp hbound
    cases heq
    rcases (withColumn_eq_iff hnodup).mp hcolumns with heq | ⟨hf, hg⟩
    · obtain ⟨hname, rfl⟩ := ColumnField.mk.inj heq
      exact Or.inl ⟨columnFieldNameAs_literalText_eq_iff.mp hname, hu.trans htype.symm⟩
    · exact Or.inr ⟨t, u, htype, hu, hf, hg⟩
  · rintro (⟨hname, hkeeps⟩ | ⟨t', u, htype', hu, hf, hg⟩)
    · refine ⟨hscalar, e.columnFieldName, t, ?_, rfl, hs⟩
      rw [hkeeps, htype, columnFieldNameAs_literalText_eq_iff.mpr hname]
      rfl
    · cases htype.symm.trans htype'
      refine ⟨hscalar, e.columnFieldNameAs (literalText Func Model Series resolve), u, by rw [hu]; rfl, ?_, hs⟩
      exact (withColumn_eq_iff hnodup).mpr (Or.inr ⟨hf, hg⟩)

/-! ### The values of an explode with index -/

variable {name : String}

theorem explodedColumns_of_not_mem (h : name ∉ schema.columnNames) (valueName : String) (t : DataType) :
    explodedColumns schema name valueName t = schema ++ [⟨valueName, t⟩] := by
  have hsame : (schema.flatMap fun f => if f.name = name then
      if valueName ≠ f.name then [f, (⟨valueName, t⟩ : ColumnField)] else [⟨valueName, t⟩] else [f]) = schema := by
    refine (List.flatMap_congr fun f hf => if_neg fun hname : f.name = name => h ?_).trans (List.flatMap_singleton' schema)
    rw [← hname]
    exact List.mem_map_of_mem hf
  rw [explodedColumns, hsame, if_neg h]

/-- The values come after the exploded column, or in its place when they have its name. -/
theorem explodedColumns_of_mem {before after : Schema}
    (hnodup : (before ++ f :: after).columnNames.Nodup) (valueName : String) (t : DataType) :
    explodedColumns (before ++ f :: after) f.name valueName t =
      before ++ ((if valueName ≠ f.name then [f, ⟨valueName, t⟩] else [⟨valueName, t⟩]) ++ after) := by
  rw [Schema.columnNames, List.map_append, List.map_cons, List.nodup_middle, List.nodup_cons, List.mem_append] at hnodup
  have hother : ∀ fields : Schema, (∀ g ∈ fields, g.name ≠ f.name) → (fields.flatMap fun g => if g.name = f.name then
      if valueName ≠ g.name then [g, (⟨valueName, t⟩ : ColumnField)] else [⟨valueName, t⟩] else [g]) = fields := by
    intro fields hfields
    exact (List.flatMap_congr fun g hg => if_neg (hfields g hg)).trans (List.flatMap_singleton' fields)
  have hbefore := hother before fun g hg hname => hnodup.1 (Or.inl (hname ▸ List.mem_map_of_mem hg))
  have hafter := hother after fun g hg hname => hnodup.1 (Or.inr (hname ▸ List.mem_map_of_mem hg))
  have hmem : f.name ∈ (before ++ f :: after : Schema).columnNames :=
    List.mem_map_of_mem (List.mem_append_right _ List.mem_cons_self)
  rw [explodedColumns, if_pos hmem, List.append_nil, List.flatMap_append, List.flatMap_cons, hbefore, hafter, if_pos rfl]

theorem exists_split_of_mem (h : name ∈ schema.columnNames) :
    ∃ before f after, schema = before ++ f :: after ∧ f.name = name := by
  obtain ⟨f, hf, hname⟩ := List.mem_map.mp h
  obtain ⟨before, after, hsplit⟩ := List.append_of_mem hf
  exact ⟨before, f, after, hsplit, hname⟩

theorem mem_explodedColumns (hnodup : schema.columnNames.Nodup) (name valueName : String) (t : DataType) :
    ⟨valueName, t⟩ ∈ explodedColumns schema name valueName t := by
  by_cases hmem : name ∈ schema.columnNames
  · obtain ⟨before, f, after, rfl, rfl⟩ := exists_split_of_mem hmem
    rw [explodedColumns_of_mem hnodup]
    split <;> simp
  · rw [explodedColumns_of_not_mem hmem]
    simp

/-- A column is added, unless the values are put in the place of one. -/
theorem length_explodedColumns (hnodup : schema.columnNames.Nodup) (name valueName : String) (t : DataType) :
    (explodedColumns schema name valueName t).length =
      if name ∈ schema.columnNames ∧ name = valueName then schema.length else schema.length + 1 := by
  by_cases hmem : name ∈ schema.columnNames
  · obtain ⟨before, f, after, rfl, rfl⟩ := exists_split_of_mem hmem
    rw [explodedColumns_of_mem hnodup]
    by_cases hname : f.name = valueName
    · rw [if_neg fun hne => hne hname.symm, if_pos ⟨hmem, hname⟩]
      simp
    · rw [if_pos (Ne.symm hname), if_neg fun h => hname h.2]
      simp
      omega
  · rw [explodedColumns_of_not_mem hmem, if_neg fun h => hmem h.1, List.length_append]
    rfl

variable {valueName : String}

/-- The column before the values is the exploded one, or the last one. -/
theorem names_explodedColumns (hnodup : schema.columnNames.Nodup)
    (h : ¬ (name ∈ schema.columnNames ∧ name = valueName)) (t : DataType) :
    ∃ before after, (explodedColumns schema name valueName t).columnNames = before ++ valueName :: after ∧
      before.getLast? = if name ∈ schema.columnNames then some name else schema.columnNames.getLast? := by
  by_cases hmem : name ∈ schema.columnNames
  · have hname : name ≠ valueName := fun hname => h ⟨hmem, hname⟩
    rw [if_pos hmem]
    obtain ⟨before, f, after, rfl, rfl⟩ := exists_split_of_mem hmem
    refine ⟨Schema.columnNames before ++ [f.name], Schema.columnNames after, ?_, by simp⟩
    rw [explodedColumns_of_mem hnodup, if_pos hname.symm]
    simp [Schema.columnNames]
  · rw [if_neg hmem]
    refine ⟨schema.columnNames, [], ?_, rfl⟩
    rw [explodedColumns_of_not_mem hmem]
    simp [Schema.columnNames]

theorem explodedColumns_of_putsLast (hnodup : schema.columnNames.Nodup)
    (h : PutsLast schema valueName name) (t : DataType) :
    explodedColumns schema name valueName t = schema ++ [⟨valueName, t⟩] := by
  by_cases hmem : name ∈ schema.columnNames
  · obtain ⟨hne, hlast⟩ := h hmem
    obtain ⟨f, hf, rfl⟩ : ∃ f, schema.getLast? = some f ∧ f.name = name := by
      rw [Schema.columnNames, List.getLast?_map] at hlast
      exact Option.map_eq_some_iff.mp hlast
    obtain ⟨before, rfl⟩ := List.getLast?_eq_some_iff.mp hf
    rw [explodedColumns_of_mem hnodup, if_pos hne.symm]
    simp
  · exact explodedColumns_of_not_mem hmem valueName t

/-- The exploded column can change its name where the values are put at the end. -/
theorem explodedColumns_eq_iff (hnodup : schema.columnNames.Nodup) {name' : String} {u : DataType}
    (hvalid : (explodedColumns schema name valueName t).columnNames.Nodup) :
    explodedColumns schema name' valueName u = explodedColumns schema name valueName t ↔
      u = t ∧ (name' = name ∨ (PutsLast schema valueName name ∧ PutsLast schema valueName name')) := by
  constructor
  · intro h
    have htype : u = t := by
      have hnew := h ▸ mem_explodedColumns hnodup name' valueName u
      have hold := mem_explodedColumns hnodup name valueName t
      exact (ColumnField.mk.inj (List.inj_on_of_nodup_map hvalid hnew hold rfl)).2
    refine ⟨htype, or_iff_not_imp_left.mpr fun hne => ?_⟩
    have hlength := congrArg List.length h
    rw [length_explodedColumns hnodup, length_explodedColumns hnodup] at hlength
    -- one explode puts its values in the place of a column, and the other does not
    have hadds : ¬ (name ∈ schema.columnNames ∧ name = valueName) ∧
        ¬ (name' ∈ schema.columnNames ∧ name' = valueName) := by
      by_cases hold : name ∈ schema.columnNames ∧ name = valueName
      · have hnew : ¬ (name' ∈ schema.columnNames ∧ name' = valueName) := fun hnew => hne (hnew.2.trans hold.2.symm)
        rw [if_pos hold, if_neg hnew] at hlength
        omega
      · refine ⟨hold, fun hnew => ?_⟩
        rw [if_neg hold, if_pos hnew] at hlength
        omega
    obtain ⟨before, after, hnames, hlast⟩ := names_explodedColumns hnodup hadds.1 t
    obtain ⟨before', after', hnames', hlast'⟩ := names_explodedColumns hnodup hadds.2 u
    rw [hnames, List.nodup_middle, List.nodup_cons, List.mem_append, not_or] at hvalid
    have hsplit : before' = before := by
      have heq : before' ++ valueName :: after' = before ++ valueName :: after := by
        rw [← hnames, ← hnames', h]
      exact ((List.append_cons_inj_of_notMem hvalid.1.1 hvalid.1.2).mp heq.symm).1.symm
    rw [hsplit, hlast] at hlast'
    constructor
    · intro hmem
      refine ⟨fun hname => hadds.1 ⟨hmem, hname⟩, ?_⟩
      rw [if_pos hmem] at hlast'
      split at hlast'
      · exact absurd (Option.some_inj.mp hlast').symm hne
      · exact hlast'.symm
    · intro hmem
      refine ⟨fun hname => hadds.2 ⟨hmem, hname⟩, ?_⟩
      split at hlast'
      · exact absurd (Option.some_inj.mp hlast').symm hne
      · exact hlast'
  · rintro ⟨rfl, rfl | ⟨hold, hnew⟩⟩
    · rfl
    · rw [explodedColumns_of_putsLast hnodup hold, explodedColumns_of_putsLast hnodup hnew]

theorem explodeWithIndexSchema_eq_some_iff {e : Expressions.LogicalExpr Func Model Series} {s : Schema}
    {indexName : String} :
    explodeWithIndexSchema schema e indexName valueName = some s ↔ isScalar e "explode_with_index" = true ∧
      ∃ name t, e.toColumnField schema = some ⟨name, .arrayType t⟩ ∧
        ⟨indexName, .integerType⟩ :: explodedColumns schema name valueName t = s ∧ s.columnNames.Nodup := by
  rw [explodeWithIndexSchema, Option.ite_none_right_eq_some]
  apply and_congr_right
  intro _
  constructor
  · intro h
    split at h
    next name t hfield =>
        obtain ⟨rfl, hnodup⟩ := Schema.validated_eq_some.mp h
        exact ⟨name, t, hfield, rfl, hnodup⟩
    next => cases h
  · rintro ⟨name, t, hfield, rfl, hnodup⟩
    rw [hfield]
    exact Schema.validated_eq_some.mpr ⟨rfl, hnodup⟩

include hresolve in
theorem explodeWithIndexSchema_transform_iff (hnodup : schema.columnNames.Nodup) {indexName : String}
    (hs : explodeWithIndexSchema schema e indexName valueName = some s) (h : transformExpr resolve e = some e') :
    explodeWithIndexSchema schema e' indexName valueName = some s ↔
      KeepsValues (literalText Func Model Series resolve) schema e valueName := by
  obtain ⟨hscalar, name, t, hfield, rfl, hs⟩ := explodeWithIndexSchema_eq_some_iff.mp hs
  obtain ⟨t', htype, heq⟩ := Option.map_eq_some_iff.mp hfield
  cases heq
  have hvalid : (explodedColumns schema e.columnFieldName valueName t).columnNames.Nodup := (List.nodup_cons.mp hs).2
  rw [explodeWithIndexSchema_eq_some_iff, isScalar_transform h, toColumnField_transform hresolve hfield h]
  constructor
  · rintro ⟨-, name, u, hbound, hcolumns, -⟩
    obtain ⟨u', hu, heq⟩ := Option.map_eq_some_iff.mp hbound
    cases heq
    obtain ⟨rfl, hname⟩ := (explodedColumns_eq_iff hnodup hvalid).mp (List.cons.inj hcolumns).2
    exact ⟨hu.trans htype.symm, hname.imp_left columnFieldNameAs_literalText_eq_iff.mp⟩
  · rintro ⟨hkeeps, hname⟩
    refine ⟨hscalar, e.columnFieldNameAs (literalText Func Model Series resolve), t, ?_, ?_, hs⟩
    · rw [hkeeps, htype]
      rfl
    · rw [(explodedColumns_eq_iff hnodup hvalid).mpr
        ⟨rfl, hname.imp_left columnFieldNameAs_literalText_eq_iff.mpr⟩]

/-! ### Clusters and aggregates -/

theorem optionalColumn_eq_iff {name : Option String} {u : DataType} :
    optionalColumn name t = optionalColumn name u ↔ ((∃ n, name = some n ∧ n ≠ "") → t = u) := by
  unfold optionalColumn
  split
  · simp
  next n =>
      by_cases hempty : n = ""
      · simp [hempty]
      · simp [hempty]

include hresolve in
theorem semanticClusterSchema_transform_iff {labelColumn : String} {centroidColumn : Option String}
    (hs : semanticClusterSchema schema e labelColumn centroidColumn = some s) (h : transformExpr resolve e = some e') :
    semanticClusterSchema schema e' labelColumn centroidColumn = some s ↔
      KeepsCentroids (literalText Func Model Series resolve) schema e centroidColumn := by
  obtain ⟨hscalar, hs⟩ := Option.ite_none_right_eq_some.mp hs
  split at hs
  next dimensions embeddingModel htype =>
      cases hs
      rw [semanticClusterSchema, isScalar_transform h, if_pos hscalar, logicalType_transform hresolve schema e htype h]
      constructor
      · intro hnew
        split at hnew
        next dimensions' embeddingModel' htype' =>
            have hcolumn := (List.cons.inj (List.append_cancel_left (Option.some_inj.mp hnew))).2
            refine ⟨⟨_, _, htype'⟩, fun hname => ?_⟩
            rw [KeepsType, htype', htype, optionalColumn_eq_iff.mp hcolumn hname]
        next => cases hnew
      · rintro ⟨⟨dimensions', embeddingModel', htype'⟩, hkeeps⟩
        rw [htype']
        have hcolumn : optionalColumn centroidColumn (.embeddingType dimensions' embeddingModel') =
            optionalColumn centroidColumn (.embeddingType dimensions embeddingModel) :=
          optionalColumn_eq_iff.mpr fun hname => Option.some_inj.mp (htype'.symm.trans ((hkeeps hname).trans htype))
        simp only [hcolumn]
  next => cases hs

omit [TypeRules Func Model Series] in
mutual

theorem all_heads_transform {f : ExprHead Func Model Series → Bool}
    (hf : ∀ dataType name l, f (.unresolvedLiteral dataType name) = f (.literal l)) :
    ∀ (e : Expressions.LogicalExpr Func Model Series) {e' : Expressions.LogicalExpr Func Model Series},
      transformExpr resolve e = some e' → (e'.subexprs.all fun s => f s.head) = e.subexprs.all fun s => f s.head
  | .node head children, e', h => by
    rcases transformExpr_cases h with ⟨dataType, name, l, rfl, rfl, -, rfl⟩ | ⟨-, children', hchildren, rfl⟩
    · show (f (.literal l) && true) = (f (.unresolvedLiteral dataType name) && true)
      rw [hf dataType name l]
    · show (f head && (Expressions.LogicalExpr.subexprsList children').all fun s => f s.head) = _
      rw [all_heads_transform_list hf children hchildren]
      rfl

theorem all_heads_transform_list {f : ExprHead Func Model Series → Bool}
    (hf : ∀ dataType name l, f (.unresolvedLiteral dataType name) = f (.literal l)) :
    ∀ (es : List (Expressions.LogicalExpr Func Model Series)) {es' : List (Expressions.LogicalExpr Func Model Series)},
      transformExprs resolve es = some es' → ((Expressions.LogicalExpr.subexprsList es').all fun s => f s.head) =
        (Expressions.LogicalExpr.subexprsList es).all fun s => f s.head
  | [], es', h => by
    cases h
    rfl
  | e :: es, es', h => by
    obtain ⟨e', rest, he, hrest, rfl⟩ := transformExprs_cons h
    show (e'.subexprs ++ Expressions.LogicalExpr.subexprsList rest).all _ =
      (e.subexprs ++ Expressions.LogicalExpr.subexprsList es).all _
    rw [List.all_append, List.all_append, all_heads_transform hf e he, all_heads_transform_list hf es hrest]

end

omit [TypeRules Func Model Series] in
/-- An aggregate under its alias. -/
theorem transformAgg_eq_some {agg agg' : String × Expressions.LogicalExpr Func Model Series} :
    (transformExpr resolve agg.2).map (fun e => (agg.1, e)) = some agg' ↔
      transformExpr resolve agg.2 = some agg'.2 ∧ agg'.1 = agg.1 := by
  obtain ⟨name', e'⟩ := agg'
  rw [Option.map_eq_some_iff]
  constructor
  · rintro ⟨e'', he, heq⟩
    cases heq
    exact ⟨he, rfl⟩
  · rintro ⟨he, rfl⟩
    exact ⟨e', he, rfl⟩

theorem mapM_length {α β : Type} {f : α → Option β} {xs : List α} {ys : List β} (h : xs.mapM f = some ys) :
    ys.length = xs.length := by
  simpa using (congrArg List.length (Rows.mapM_eq_some.mp h)).symm

include hresolve in
theorem aggField_transform_iff {agg agg' : String × Expressions.LogicalExpr Func Model Series}
    (hf : aggField schema agg = some f) (h : (transformExpr resolve agg.2).map (fun e => (agg.1, e)) = some agg') :
    aggField schema agg' = some f ↔ KeepsType (literalText Func Model Series resolve) schema agg.2 := by
  obtain ⟨he, hname⟩ := transformAgg_eq_some.mp h
  obtain ⟨t, ht, rfl⟩ := Option.map_eq_some_iff.mp hf
  rw [← logicalType_transform_iff hresolve ht he, aggField, hname, Option.map_eq_some_iff]
  constructor
  · rintro ⟨u, hu, heq⟩
    rw [hu, (ColumnField.mk.inj heq).2]
  · exact fun hu => ⟨t, hu, rfl⟩

include hresolve in
theorem aggregateSchema_transform_iff {groups groups' : List (Expressions.LogicalExpr Func Model Series)}
    {aggs aggs' : List (String × Expressions.LogicalExpr Func Model Series)}
    (hs : aggregateSchema schema groups aggs = some s) (hgroups : groups.mapM (transformExpr resolve) = some groups')
    (haggs : (aggs.mapM fun agg => (transformExpr resolve agg.2).map fun e => (agg.1, e)) = some aggs') :
    aggregateSchema schema groups' aggs' = some s ↔
      (∀ e ∈ groups, KeepsColumn (literalText Func Model Series resolve) schema e) ∧
        ∀ agg ∈ aggs, KeepsType (literalText Func Model Series resolve) schema agg.2 := by
  obtain ⟨⟨haggregate, hvalid⟩, hs⟩ := Option.ite_none_right_eq_some.mp hs
  obtain ⟨groupFields, hgroupFields, hs⟩ := Option.bind_eq_some_iff.mp hs
  obtain ⟨aggFields, haggFields, hs⟩ := Option.bind_eq_some_iff.mp hs
  obtain ⟨rfl, hnodup⟩ := Schema.validated_eq_some.mp hs
  have haggregate' : (aggs'.all fun agg => agg.2.head.isAggregate) = true := by
    have hmap := Rows.map_of_mapM (p := fun agg => agg.2.head.isAggregate) (g := fun agg => agg.2.head.isAggregate)
      (fun agg agg' h => transformExpr_head (f := ExprHead.isAggregate) (fun _ _ _ => rfl) (transformAgg_eq_some.mp h).1)
      haggs
    have hall := congrArg (List.all · id) hmap
    simpa [List.all_map, Function.comp_def, haggregate] using hall
  have hvalid' : groups'.all Expressions.LogicalExpr.validGroup = true := by
    have hmap := Rows.map_of_mapM (p := Expressions.LogicalExpr.validGroup) (g := Expressions.LogicalExpr.validGroup)
      (fun e e' h => all_heads_transform (f := fun head => !head.isAggregate && !head.isSort) (fun _ _ _ => rfl) e h) hgroups
    have hall := congrArg (List.all · id) hmap
    simpa [List.all_map, Function.comp_def, hvalid] using hall
  have haggIff : aggs'.mapM (aggField schema) = some aggFields ↔
      ∀ agg ∈ aggs, KeepsType (literalText Func Model Series resolve) schema agg.2 :=
    Rows.mapM_image_iff (fun agg f agg' hf h => aggField_transform_iff hresolve hf h) haggFields haggs
  rw [← Rows.mapM_image_iff (fun e f e' hf he => toColumnField_transform_iff hresolve hf he) hgroupFields hgroups, ← haggIff,
    aggregateSchema, if_pos ⟨haggregate', hvalid'⟩]
  constructor
  · intro hnew
    obtain ⟨groupFields', hgroupFields', hnew⟩ := Option.bind_eq_some_iff.mp hnew
    obtain ⟨aggFields', haggFields', hnew⟩ := Option.bind_eq_some_iff.mp hnew
    have happend := (Schema.validated_eq_some.mp hnew).1
    have hlength : groupFields'.length = groupFields.length := by
      rw [mapM_length hgroupFields', mapM_length hgroupFields, mapM_length hgroups]
    obtain ⟨rfl, rfl⟩ := List.append_inj happend hlength
    exact ⟨hgroupFields', haggFields'⟩
  · rintro ⟨hnewGroups, hnewAggs⟩
    rw [hnewGroups, hnewAggs]
    exact hs

/-! ## Joins -/

variable {left right : Schema} {l r l' r' : Expressions.LogicalExpr Func Model Series}

include hresolve in
theorem comparable_transform_iff
    (htyped : Comparable left right (l, r)) (hl : transformExpr resolve l = some l') (hr : transformExpr resolve r = some r') :
    Comparable left right (l', r') ↔ ComparableAs (literalText Func Model Series resolve) left right (l, r) := by
  obtain ⟨hsome, heq⟩ := htyped
  obtain ⟨t, ht⟩ := Option.isSome_iff_exists.mp hsome
  have hright : r.logicalType right = some t := heq.symm.trans ht
  show (l'.logicalType left).isSome ∧ l'.logicalType left = r'.logicalType right ↔ _
  rw [logicalType_transform hresolve left l ht hl, logicalType_transform hresolve right r hright hr]
  rfl

include hresolve in
theorem forall_comparable_transform_iff {left right : Schema} :
    ∀ {ls rs ls' rs' : List (Expressions.LogicalExpr Func Model Series)}, ls.mapM (transformExpr resolve) = some ls' →
      rs.mapM (transformExpr resolve) = some rs' → (∀ key ∈ ls.zip rs, Comparable left right key) →
        ((∀ key ∈ ls'.zip rs', Comparable left right key) ↔
          ∀ key ∈ ls.zip rs, ComparableAs (literalText Func Model Series resolve) left right key)
  | [], rs, ls', rs', hl, hr, htyped => by
    cases hl
    simp
  | l :: ls, [], ls', rs', hl, hr, htyped => by
    cases hr
    simp
  | l :: ls, r :: rs, ls', rs', hl, hr, htyped => by
    rw [← transformExprs_eq] at hl hr
    obtain ⟨l', ls', hl', hls, rfl⟩ := transformExprs_cons hl
    obtain ⟨r', rs', hr', hrs, rfl⟩ := transformExprs_cons hr
    rw [transformExprs_eq] at hls hrs
    rw [List.zip_cons_cons, List.forall_mem_cons] at htyped
    rw [List.zip_cons_cons, List.zip_cons_cons, List.forall_mem_cons, List.forall_mem_cons,
      comparable_transform_iff hresolve htyped.1 hl' hr', forall_comparable_transform_iff hls hrs htyped.2]

omit [TypeRules Func Model Series] in
theorem filterMap_keyName?_transform {es es' : List (Expressions.LogicalExpr Func Model Series)}
    (h : es.mapM (transformExpr resolve) = some es') : es'.filterMap keyName? = es.filterMap keyName? := by
  have hmap := Rows.map_of_mapM (p := keyName?) (g := keyName?)
    (fun e e' he => transformExpr_head (f := fun head => keyName? (.node head [])) (fun _ _ _ => rfl) he) h
  have hfilter := congrArg (List.filterMap id) hmap
  simpa [List.filterMap_map] using hfilter

include hresolve in
theorem joinSchema_transform_iff {leftOn rightOn leftOn' rightOn' :
      List (Expressions.LogicalExpr Func Model Series)} {how : Lineage.JoinHow}
    (hs : joinSchema left right leftOn rightOn how = some s) (hl : leftOn.mapM (transformExpr resolve) = some leftOn')
    (hr : rightOn.mapM (transformExpr resolve) = some rightOn') :
    joinSchema left right leftOn' rightOn' how = some s ↔
      ∀ key ∈ leftOn.zip rightOn, ComparableAs (literalText Func Model Series resolve) left right key := by
  obtain ⟨⟨hscalar, htyped⟩, hs⟩ := Option.ite_none_right_eq_some.mp hs
  have hscalar' : ((leftOn' ++ rightOn').all fun e => isScalar e "join") = true := by
    rw [List.all_append, all_isScalar_transform hl, all_isScalar_transform hr, ← List.all_append]
    exact hscalar
  rw [← forall_comparable_transform_iff hresolve hl hr htyped, joinSchema, Option.ite_none_right_eq_some,
    filterMap_keyName?_transform hl, filterMap_keyName?_transform hr]
  exact ⟨fun hnew => hnew.1.2, fun hnew => ⟨⟨hscalar', hnew⟩, hs⟩⟩

include hresolve in
theorem semanticJoinSchema_transform_iff
    {takes : DataType → DataType → Bool} (hs : semanticJoinSchema left right l r takes = some s)
    (hl : transformExpr resolve l = some l') (hr : transformExpr resolve r = some r') :
    semanticJoinSchema left right l' r' takes = some s ↔
      ∃ t u, l.typeAs (literalText Func Model Series resolve) left = some t ∧
        r.typeAs (literalText Func Model Series resolve) right = some u ∧ takes t u = true := by
  obtain ⟨hscalar, hs⟩ := Option.ite_none_right_eq_some.mp hs
  obtain ⟨t, ht, hs⟩ := Option.bind_eq_some_iff.mp hs
  obtain ⟨u, hu, hs⟩ := Option.bind_eq_some_iff.mp hs
  obtain ⟨-, hs⟩ := Option.ite_none_right_eq_some.mp hs
  rw [semanticJoinSchema, isScalar_transform hl, isScalar_transform hr, if_pos hscalar,
    logicalType_transform hresolve left l ht hl, logicalType_transform hresolve right r hu hr]
  simp only [Option.bind_eq_some_iff, Option.ite_none_right_eq_some]
  constructor
  · rintro ⟨t', ht', u', hu', htakes, -⟩
    exact ⟨t', u', ht', hu', htakes⟩
  · rintro ⟨t', u', ht', hu', htakes⟩
    exact ⟨t', ht', u', hu', htakes, hs⟩

include hresolve in
theorem semanticSimilarityJoinSchema_transform_iff
    {similarityScoreColumn : Option String}
    (hs : semanticSimilarityJoinSchema left right l r similarityScoreColumn = some s)
    (hl : transformExpr resolve l = some l') (hr : transformExpr resolve r = some r') :
    semanticSimilarityJoinSchema left right l' r' similarityScoreColumn = some s ↔
      ∃ dimensions embeddingModel,
        l.typeAs (literalText Func Model Series resolve) left = some (.embeddingType dimensions embeddingModel) ∧
          r.typeAs (literalText Func Model Series resolve) right = some (.embeddingType dimensions embeddingModel) := by
  obtain ⟨hscalar, hs⟩ := Option.ite_none_right_eq_some.mp hs
  split at hs
  next dimensions embeddingModel ht =>
      obtain ⟨hu, hs⟩ := Option.ite_none_right_eq_some.mp hs
      rw [semanticSimilarityJoinSchema, isScalar_transform hl, isScalar_transform hr, if_pos hscalar,
        logicalType_transform hresolve left l ht hl, logicalType_transform hresolve right r hu hr]
      constructor
      · intro hnew
        split at hnew
        next dimensions' embeddingModel' ht' =>
            exact ⟨dimensions', embeddingModel', ht', (Option.ite_none_right_eq_some.mp hnew).1⟩
        next => cases hnew
      · rintro ⟨dimensions', embeddingModel', ht', hu'⟩
        rw [ht', hu']
        simpa using hs
  next => cases hs

/-! ## Nodes -/

variable {cls : PlanClass Func Model Series} {inputs : List Schema}

theorem buildSchema_eq_some :
    cls.buildSchema inputs = some s ↔ cls.columns inputs = some s ∧ s.columnNames.Nodup := by
  rw [PlanClass.buildSchema, Option.bind_eq_some_iff]
  constructor
  · rintro ⟨columns, hcolumns, hvalid⟩
    obtain ⟨rfl, hnodup⟩ := Schema.validated_eq_some.mp hvalid
    exact ⟨hcolumns, hnodup⟩
  · rintro ⟨hcolumns, hnodup⟩
    exact ⟨s, hcolumns, Schema.validated_eq_some.mpr ⟨rfl, hnodup⟩⟩

omit [TypeRules Func Model Series] in
theorem onInput_eq_some {build : Schema → Option Schema} (h : onInput inputs build = some s) :
    ∃ input, inputs = [input] ∧ build input = some s := by
  unfold onInput at h
  split at h
  next input => exact ⟨input, rfl, h⟩
  next => cases h

omit [TypeRules Func Model Series] in
theorem onInputs_eq_some {build : Schema → Schema → Option Schema}
    (h : onInputs inputs build = some s) : ∃ left right, inputs = [left, right] ∧ build left right = some s := by
  unfold onInputs at h
  split at h
  next left right => exact ⟨left, right, rfl, h⟩
  next => cases h

omit [TypeRules Func Model Series] in
theorem forall_pair_iff {P : Schema → Schema → Prop} :
    (∀ left' right', [left, right] = [left', right'] → P left' right') ↔ P left right := by
  constructor
  · exact fun h => h left right rfl
  · rintro h left' right' heq
    cases heq
    exact h

include hresolve in
theorem columns_transform_iff {cls' : PlanClass Func Model Series}
    (hinputs : ∀ input ∈ inputs, input.columnNames.Nodup) (hcls : transformClass resolve cls = some cls')
    (hs : cls.columns inputs = some s) :
    cls'.columns inputs = some s ↔ cls.Keeps (literalText Func Model Series resolve) inputs := by
  cases cls with
  | projection exprs =>
    obtain ⟨exprs', hexprs, rfl⟩ := Option.map_eq_some_iff.mp hcls
    obtain ⟨input, rfl, hs⟩ := onInput_eq_some hs
    simp only [PlanClass.Keeps, List.forall_mem_singleton]
    exact projectionSchema_transform_iff hresolve hs hexprs
  | filter predicate =>
    obtain ⟨predicate', hpredicate, rfl⟩ := Option.map_eq_some_iff.mp hcls
    obtain ⟨input, rfl, hs⟩ := onInput_eq_some hs
    simp only [PlanClass.Keeps, List.forall_mem_singleton]
    exact filterSchema_transform_iff hresolve hs hpredicate
  | explode expr keepNullAndEmpty =>
    obtain ⟨expr', hexpr, rfl⟩ := Option.map_eq_some_iff.mp hcls
    obtain ⟨input, rfl, hs⟩ := onInput_eq_some hs
    have hinput := hinputs input List.mem_cons_self
    simp only [PlanClass.Keeps, List.forall_mem_singleton]
    exact explodeSchema_transform_iff hresolve hinput hs hexpr
  | explodeWithIndex expr indexName valueName keepNullAndEmpty =>
    obtain ⟨expr', hexpr, rfl⟩ := Option.map_eq_some_iff.mp hcls
    obtain ⟨input, rfl, hs⟩ := onInput_eq_some hs
    have hinput := hinputs input List.mem_cons_self
    simp only [PlanClass.Keeps, List.forall_mem_singleton]
    exact explodeWithIndexSchema_transform_iff hresolve hinput hs hexpr
  | semanticCluster byExpr labelColumn centroidColumn =>
    obtain ⟨byExpr', hexpr, rfl⟩ := Option.map_eq_some_iff.mp hcls
    obtain ⟨input, rfl, hs⟩ := onInput_eq_some hs
    simp only [PlanClass.Keeps, List.forall_mem_singleton]
    exact semanticClusterSchema_transform_iff hresolve hs hexpr
  | aggregate groups aggs =>
    obtain ⟨groups', hgroups, hcls⟩ := Option.bind_eq_some_iff.mp hcls
    obtain ⟨aggs', haggs, rfl⟩ := Option.map_eq_some_iff.mp hcls
    obtain ⟨input, rfl, hs⟩ := onInput_eq_some hs
    simp only [PlanClass.Keeps, List.forall_mem_singleton]
    exact aggregateSchema_transform_iff hresolve hs hgroups haggs
  | join leftOn rightOn how =>
    obtain ⟨leftOn', hl, hcls⟩ := Option.bind_eq_some_iff.mp hcls
    obtain ⟨rightOn', hr, rfl⟩ := Option.map_eq_some_iff.mp hcls
    obtain ⟨left, right, rfl, hs⟩ := onInputs_eq_some hs
    simp only [PlanClass.Keeps, forall_pair_iff]
    exact joinSchema_transform_iff hresolve hs hl hr
  | semanticJoin leftOn rightOn takes =>
    obtain ⟨leftOn', hl, hcls⟩ := Option.bind_eq_some_iff.mp hcls
    obtain ⟨rightOn', hr, rfl⟩ := Option.map_eq_some_iff.mp hcls
    obtain ⟨left, right, rfl, hs⟩ := onInputs_eq_some hs
    simp only [PlanClass.Keeps, forall_pair_iff]
    exact semanticJoinSchema_transform_iff hresolve hs hl hr
  | semanticSimilarityJoin leftOn rightOn similarityScoreColumn =>
    obtain ⟨leftOn', hl, hcls⟩ := Option.bind_eq_some_iff.mp hcls
    obtain ⟨rightOn', hr, rfl⟩ := Option.map_eq_some_iff.mp hcls
    obtain ⟨left, right, rfl, hs⟩ := onInputs_eq_some hs
    simp only [PlanClass.Keeps, forall_pair_iff]
    exact semanticSimilarityJoinSchema_transform_iff hresolve hs hl hr
  | sort sortExprs =>
    obtain ⟨sortExprs', -, rfl⟩ := Option.map_eq_some_iff.mp hcls
    exact iff_true_intro hs
  | _ =>
    cases hcls
    exact iff_true_intro hs

include hresolve in
/-- A bound node makes the schema that it keeps when its attributes do. -/
theorem buildSchema_transform_iff {cls' : PlanClass Func Model Series}
    (hinputs : ∀ input ∈ inputs, input.columnNames.Nodup) (hcls : transformClass resolve cls = some cls')
    (hs : cls.buildSchema inputs = some s) :
    cls'.buildSchema inputs = some s ↔ cls.Keeps (literalText Func Model Series resolve) inputs := by
  obtain ⟨hcolumns, hnodup⟩ := buildSchema_eq_some.mp hs
  rw [buildSchema_eq_some, columns_transform_iff hresolve hinputs hcls hcolumns]
  exact and_iff_left hnodup

/-! ## Plans -/

omit [TypeRules Func Model Series] in
mutual

/-- A bound plan keeps its schema. -/
theorem schema_transformPlan : ∀ (p : StoredPlan Func Model Series) {p' : StoredPlan Func Model Series},
    transformPlan resolve p = some p' → p'.schema = p.schema
  | .node cls schema children, p', h => by
    obtain ⟨cls', -, h⟩ := Option.bind_eq_some_iff.mp h
    obtain ⟨children', -, rfl⟩ := Option.map_eq_some_iff.mp h
    rfl

theorem map_schema_transformPlans : ∀ (ps : List (StoredPlan Func Model Series)) {ps' : List (StoredPlan Func Model Series)},
    transformPlans resolve ps = some ps' → ps'.map StoredPlan.schema = ps.map StoredPlan.schema
  | [], ps', h => by
    cases h
    rfl
  | p :: ps, ps', h => by
    obtain ⟨p', hp, h⟩ := Option.bind_eq_some_iff.mp h
    obtain ⟨rest, hrest, rfl⟩ := Option.map_eq_some_iff.mp h
    rw [List.map_cons, List.map_cons, schema_transformPlan p hp, map_schema_transformPlans ps hrest]

end

/-- The attributes of every node still make the schema that the node keeps. -/
def KeepsAll (x : PlaceholderText) (p : StoredPlan Func Model Series) : Prop :=
  ∀ q ∈ p.nodes, q.cls.Keeps x (q.children.map StoredPlan.schema)

mutual

theorem keepsBuilt_transform_iff (hresolve : resolve.Typed) :
    ∀ (p : StoredPlan Func Model Series) {p' : StoredPlan Func Model Series},
    (∀ q ∈ p.nodes, q.KeepsBuilt) → transformPlan resolve p = some p' →
      ((∀ q ∈ p'.nodes, q.KeepsBuilt) ↔ KeepsAll (literalText Func Model Series resolve) p)
  | .node cls schema children, p', hbuilt, h => by
    obtain ⟨cls', hcls, h⟩ := Option.bind_eq_some_iff.mp h
    obtain ⟨children', hchildren, rfl⟩ := Option.map_eq_some_iff.mp h
    have hself : cls.buildSchema (children.map StoredPlan.schema) = some schema := hbuilt _ List.mem_cons_self
    have hinputs : ∀ input ∈ children.map StoredPlan.schema, input.columnNames.Nodup := by
      intro input hinput
      obtain ⟨child, hchild, rfl⟩ := List.mem_map.mp hinput
      have hkeeps : child.KeepsBuilt := hbuilt child (List.mem_cons_of_mem _
        (StoredPlan.mem_nodesList.mpr ⟨child, hchild, StoredPlan.self_mem_nodes child⟩))
      exact (buildSchema_eq_some.mp hkeeps).2
    have hnode := buildSchema_transform_iff hresolve hinputs hcls hself
    have hrest := keepsBuilt_transform_list_iff hresolve children (fun q hq => hbuilt q (List.mem_cons_of_mem _ hq)) hchildren
    show (∀ q ∈ .node cls' schema children' :: StoredPlan.nodesList children', q.KeepsBuilt) ↔
      ∀ q ∈ .node cls schema children :: StoredPlan.nodesList children,
        q.cls.Keeps (literalText Func Model Series resolve) (q.children.map StoredPlan.schema)
    rw [List.forall_mem_cons, List.forall_mem_cons]
    refine and_congr ?_ hrest
    show cls'.buildSchema (children'.map StoredPlan.schema) = some schema ↔ _
    rw [map_schema_transformPlans children hchildren]
    exact hnode

theorem keepsBuilt_transform_list_iff (hresolve : resolve.Typed) :
    ∀ (ps : List (StoredPlan Func Model Series)) {ps' : List (StoredPlan Func Model Series)},
    (∀ q ∈ StoredPlan.nodesList ps, q.KeepsBuilt) → transformPlans resolve ps = some ps' →
      ((∀ q ∈ StoredPlan.nodesList ps', q.KeepsBuilt) ↔ ∀ q ∈ StoredPlan.nodesList ps,
        q.cls.Keeps (literalText Func Model Series resolve) (q.children.map StoredPlan.schema))
  | [], ps', _, h => by
    cases h
    simp [StoredPlan.nodesList]
  | p :: ps, ps', hbuilt, h => by
    obtain ⟨p', hp, h⟩ := Option.bind_eq_some_iff.mp h
    obtain ⟨rest, hrest, rfl⟩ := Option.map_eq_some_iff.mp h
    have hfirst := keepsBuilt_transform_iff hresolve p (fun q hq => hbuilt q (List.mem_append_left _ hq)) hp
    have hothers := keepsBuilt_transform_list_iff hresolve ps (fun q hq => hbuilt q (List.mem_append_right _ hq)) hrest
    show (∀ q ∈ p'.nodes ++ StoredPlan.nodesList rest, q.KeepsBuilt) ↔
      ∀ q ∈ p.nodes ++ StoredPlan.nodesList ps,
        q.cls.Keeps (literalText Func Model Series resolve) (q.children.map StoredPlan.schema)
    rw [List.forall_mem_append, List.forall_mem_append]
    exact and_congr hfirst hothers

end

end

/-- The text of what is put in the place of each placeholder. -/
def boundText (Func Model Series : Type) [Printing Func Model Series] [Literals] (params : List (String × PyObj))
    (toolParams : List BoundToolParam) : PlaceholderText :=
  literalText Func Model Series (resolveLiteral params toolParams)

/-- **A bound plan is consistent exactly when no placeholder is printed in the name of a column, and no type on which a
    schema depends changes with the texts of placeholders in the names of fields of structs.** -/
theorem bound_consistent_iff [Literals] (params : List (String × PyObj)) (toolParams : List BoundToolParam)
    (plan bound : StoredPlan Func Model Series) (hbuilt : plan.Built) (hbind : bindPlan params toolParams plan = some bound) :
    bound.Consistent ↔ KeepsAll (boundText Func Model Series params toolParams) plan := by
  rw [StoredPlan.consistent_iff]
  exact keepsBuilt_transform_iff (resolveLiteral_typed params toolParams) plan hbuilt.keepsBuilt hbind

/-! ## A minimum as a parameter -/

namespace BoundExamples

/-- Texts of opaque values are left out; a comparison is a truth value, and any other function has the type of its first
    argument. -/
local instance : TypeRules Empty Empty Empty where
  funcName := nofun
  literal _ := ""
  contentHash s := s
  schemaHash _ := ""
  contextNames s := s
  textChunkConfiguration _ := ""
  recursiveTextChunkConfiguration _ := ""
  modelAlias _ := ""
  seriesLength := nofun
  seriesName := nofun
  seriesType := nofun
  resultType head _ types :=
    match head with
    | .numericComparison _ => some .booleanType
    | _ => types.head?

local instance : Literals where
  literal value dataType :=
    match value, dataType with
    | .int n, .integerType => .integer n
    | .str s, .stringType => .string s
    | .bool b, .booleanType => .boolean b
    | _, dataType => .null dataType
  dataType_literal value dataType := by
    split <;> rfl

abbrev Plan := StoredPlan Empty Empty Empty

def column (name : String) : Expressions.LogicalExpr Empty Empty Empty := .node (.column name) []

/-- `tool_param("minimum", IntegerType)`. -/
def minimum : Expressions.LogicalExpr Empty Empty Empty := .node (.unresolvedLiteral .integerType "minimum") []

def five : Expressions.LogicalExpr Empty Empty Empty := .node (.literal (.integer 5)) []

def ages : Schema := [⟨"age", .integerType⟩]

def people : Plan := .node (.source ages) ages []

theorem people_built : people.Built := .node (fun _ h => absurd h List.not_mem_nil) rfl

def toolParams : List BoundToolParam := [⟨"minimum", "", .integerType, true, false, none, none⟩]

/-- `people.filter(age > minimum)`, with the minimum or a literal. -/
def olderThan (limit : Expressions.LogicalExpr Empty Empty Empty) : Plan :=
  .node (.filter (.node (.numericComparison .gt) [column "age", limit])) ages [people]

theorem olderThan_built : (olderThan minimum).Built :=
  .node (fun _ h => List.mem_singleton.mp h ▸ people_built) rfl

/-- `.select(age, (age - minimum).alias("more"))`. -/
def aliased (limit : Expressions.LogicalExpr Empty Empty Empty) : Plan :=
  .node (.projection [column "age", .node (.alias "more") [.node (.arithmetic .minus) [column "age", limit]]])
    [⟨"age", .integerType⟩, ⟨"more", .integerType⟩] [olderThan limit]

theorem aliased_built : (aliased minimum).Built :=
  .node (fun _ h => List.mem_singleton.mp h ▸ olderThan_built) rfl

/-- Under an alias, and in a filter, a parameter leaves the schemas as they are. -/
theorem aliased_consistent :
    bindPlan [("minimum", .int 5)] toolParams (aliased minimum) = some (aliased five) ∧ (aliased five).Consistent := by
  have hbind : bindPlan [("minimum", .int 5)] toolParams (aliased minimum) = some (aliased five) := rfl
  refine ⟨hbind, (bound_consistent_iff _ _ _ _ aliased_built hbind).mpr ?_⟩
  intro q hq
  have hnodes : q ∈ [aliased minimum, olderThan minimum, people] := hq
  simp only [List.mem_cons, List.not_mem_nil, or_false] at hnodes
  rcases hnodes with rfl | rfl | rfl
  · intro s hs e he
    rcases List.mem_cons.mp he with rfl | he
    · exact ⟨by decide, rfl⟩
    · obtain rfl := List.mem_singleton.mp he
      exact ⟨by decide, rfl⟩
  · intro s hs
    exact rfl
  · trivial

/-- `people.select(age, minimum)`. -/
def unaliased (limit : Expressions.LogicalExpr Empty Empty Empty) : Plan :=
  .node (.projection [column "age", limit]) [⟨"age", .integerType⟩, ⟨"param(minimum)", .integerType⟩] [people]

/-- Without an alias, the plan announces a column of the name of the parameter, and makes one of the name of the value. -/
theorem unaliased_not_consistent :
    (unaliased minimum).Built ∧
      bindPlan [("minimum", .int 5)] toolParams (unaliased minimum) = some (unaliased five) ∧
      (unaliased five).schema.columnNames = ["age", "param(minimum)"] ∧
      (unaliased five).rebuilt = some [⟨"age", .integerType⟩, ⟨"lit(5)", .integerType⟩] ∧
      ¬ (unaliased five).Consistent := by
  have hrebuilt : (unaliased five).rebuilt = some [⟨"age", .integerType⟩, ⟨"lit(5)", .integerType⟩] := rfl
  refine ⟨.node (fun _ h => List.mem_singleton.mp h ▸ people_built) rfl, rfl, rfl, hrebuilt, fun h => ?_⟩
  have hself := h _ (StoredPlan.self_mem_nodes _)
  exact absurd hself (by decide)

end BoundExamples

end Mcp

end Fenic
