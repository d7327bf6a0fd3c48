import Fenic.Mcp.Binder
import Fenic.PlanSchema.Placeholders
import Fenic.PlanSchema.StoredSchemas

/-!
# `Mcp.BoundExpressions` — names and types of bound expressions

The binder puts literals in the places of the placeholders in the attributes of a copy of a plan; the copy keeps the schemas
that its nodes were built with. A bound expression has the name and the type that the expression has with `lit(value)` for
the text of each placeholder (`columnFieldName_transform`, `logicalType_transform`).
-/

namespace Fenic

namespace Mcp

open Expressions PlanSchema

/-- The literal that a value and a data type make. -/
class Literals where
  literal : PyObj → DataType → Literal
  dataType_literal : ∀ value dataType, (literal value dataType).dataType = dataType

/-! ## Binding -/

section

variable {Func Model Series : Type}

/-- What is put in the place of a placeholder. -/
abbrev Resolution := DataType → String → Option Literal

/-- A literal has the type of the placeholder that it stands for. -/
def Resolution.Typed (resolve : Resolution) : Prop :=
  ∀ dataType name l, resolve dataType name = some l → l.dataType = dataType

/-- `resolvePlaceholder` as a literal. -/
def resolveLiteral [Literals] (params : List (String × PyObj)) (toolParams : List BoundToolParam) : Resolution :=
  fun dataType name =>
    match resolvePlaceholder params toolParams (dataType, name) with
    | .ok (.literal value dataType) => some (Literals.literal value dataType)
    | _ => none

theorem resolveLiteral_typed [Literals] (params : List (String × PyObj)) (toolParams : List BoundToolParam) :
    (resolveLiteral params toolParams).Typed := by
  intro dataType name l h
  unfold resolveLiteral at h
  split at h
  next value t hresolve =>
      cases h
      rw [Literals.dataType_literal]
      unfold resolvePlaceholder at hresolve
      split at hresolve
      · split at hresolve
        · cases hresolve
        · split at hresolve <;> cases hresolve
          rfl
      · split at hresolve
        · cases hresolve
        · cases hresolve
        · split at hresolve <;> cases hresolve
          rfl
  next => cases h

mutual

/-- `_transform_expr`. -/
def transformExpr (resolve : Resolution) :
    Expressions.LogicalExpr Func Model Series → Option (Expressions.LogicalExpr Func Model Series)
  | .node head children =>
    match head, children with
    | .unresolvedLiteral dataType name, [] => (resolve dataType name).map fun l => .node (.literal l) []
    | _, _ => (transformExprs resolve children).map (.node head)

def transformExprs (resolve : Resolution) :
    List (Expressions.LogicalExpr Func Model Series) → Option (List (Expressions.LogicalExpr Func Model Series))
  | [] => some []
  | e :: es => (transformExpr resolve e).bind fun e' => (transformExprs resolve es).map fun es' => e' :: es'

end

theorem transformExprs_eq (resolve : Resolution) (es : List (Expressions.LogicalExpr Func Model Series)) :
    transformExprs resolve es = es.mapM (transformExpr resolve) := by
  induction es with
  | nil => rfl
  | cons e es ih =>
    show ((transformExpr resolve e).bind fun e' => (transformExprs resolve es).map fun es' => e' :: es') = _
    rw [ih, List.mapM_cons]
    cases transformExpr resolve e with
    | none => rfl
    | some e' => cases es.mapM (transformExpr resolve) <;> rfl

/-- The attributes of a node. -/
def transformClass (resolve : Resolution) :
    PlanClass Func Model Series → Option (PlanClass Func Model Series)
  | .source schema => some (.source schema)
  | .projection exprs => (exprs.mapM (transformExpr resolve)).map .projection
  | .filter predicate => (transformExpr resolve predicate).map .filter
  | .union => some .union
  | .limit n => some (.limit n)
  | .explode expr keepNullAndEmpty => (transformExpr resolve expr).map fun e => .explode e keepNullAndEmpty
  | .explodeWithIndex expr indexName valueName keepNullAndEmpty =>
    (transformExpr resolve expr).map fun e => .explodeWithIndex e indexName valueName keepNullAndEmpty
  | .dropDuplicates subset => some (.dropDuplicates subset)
  | .sort sortExprs => (sortExprs.mapM (transformExpr resolve)).map .sort
  | .unnest colNames => some (.unnest colNames)
  | .sql planned => some (.sql planned)
  | .semanticCluster byExpr labelColumn centroidColumn =>
    (transformExpr resolve byExpr).map fun e => .semanticCluster e labelColumn centroidColumn
  | .aggregate groupExprs aggExprs =>
    (groupExprs.mapM (transformExpr resolve)).bind fun groups =>
      (aggExprs.mapM fun agg => (transformExpr resolve agg.2).map fun e => (agg.1, e)).map fun aggs =>
        .aggregate groups aggs
  | .join leftOn rightOn how =>
    (leftOn.mapM (transformExpr resolve)).bind fun left =>
      (rightOn.mapM (transformExpr resolve)).map fun right => .join left right how
  | .semanticJoin leftOn rightOn takes =>
    (transformExpr resolve leftOn).bind fun left =>
      (transformExpr resolve rightOn).map fun right => .semanticJoin left right takes
  | .semanticSimilarityJoin leftOn rightOn similarityScoreColumn =>
    (transformExpr resolve leftOn).bind fun left =>
      (transformExpr resolve rightOn).map fun right => .semanticSimilarityJoin left right similarityScoreColumn
  | .sink => some .sink

mutual

/-- `_transform_plan`. The schema of a node is not an expression, and stays. -/
def transformPlan (resolve : Resolution) : StoredPlan Func Model Series → Option (StoredPlan Func Model Series)
  | .node cls schema children =>
    (transformClass resolve cls).bind fun cls' =>
      (transformPlans resolve children).map fun children' => .node cls' schema children'

def transformPlans (resolve : Resolution) :
    List (StoredPlan Func Model Series) → Option (List (StoredPlan Func Model Series))
  | [] => some []
  | p :: ps => (transformPlan resolve p).bind fun p' => (transformPlans resolve ps).map fun ps' => p' :: ps'

end

/-- `bind_parameters`. `none` where it raises. -/
def bindPlan [Literals] (params : List (String × PyObj)) (toolParams : List BoundToolParam)
    (plan : StoredPlan Func Model Series) : Option (StoredPlan Func Model Series) :=
  transformPlan (resolveLiteral params toolParams) plan

/-! ## Bound expressions -/

section

variable {resolve : Resolution}

/-- A placeholder becomes a literal; anything else keeps its class, over bound children. -/
theorem transformExpr_cases {head : ExprHead Func Model Series}
    {children : List (Expressions.LogicalExpr Func Model Series)} {e' : Expressions.LogicalExpr Func Model Series}
    (h : transformExpr resolve (.node head children) = some e') :
    (∃ dataType name l, head = .unresolvedLiteral dataType name ∧ children = [] ∧ resolve dataType name = some l ∧
        e' = .node (.literal l) []) ∨
      ((∀ dataType name, head = .unresolvedLiteral dataType name → children ≠ []) ∧
        ∃ children', transformExprs resolve children = some children' ∧ e' = .node head children') := by
  unfold transformExpr at h
  split at h
  next dataType name =>
      obtain ⟨l, hl, rfl⟩ := Option.map_eq_some_iff.mp h
      exact Or.inl ⟨dataType, name, l, rfl, rfl, hl, rfl⟩
  next hplaceholder =>
      obtain ⟨children', hchildren, rfl⟩ := Option.map_eq_some_iff.mp h
      exact Or.inr ⟨hplaceholder, children', hchildren, rfl⟩

/-- What is the same for placeholders and literals is the same for a bound expression. -/
theorem transformExpr_head {β : Type*} {f : ExprHead Func Model Series → β}
    (hf : ∀ dataType name l, f (.unresolvedLiteral dataType name) = f (.literal l))
    {e e' : Expressions.LogicalExpr Func Model Series} (h : transformExpr resolve e = some e') : f e'.head = f e.head := by
  obtain ⟨head, children⟩ := e
  rcases transformExpr_cases h with ⟨dataType, name, l, rfl, rfl, -, rfl⟩ | ⟨-, children', -, rfl⟩
  · exact (hf dataType name l).symm
  · rfl

variable {es es' : List (Expressions.LogicalExpr Func Model Series)}

theorem transformExprs_head {β : Type*} {f : ExprHead Func Model Series → β}
    (hf : ∀ dataType name l, f (.unresolvedLiteral dataType name) = f (.literal l))
    (h : transformExprs resolve es = some es') :
    es'.map (fun e => f e.head) = es.map fun e => f e.head := by
  rw [transformExprs_eq] at h
  exact Rows.map_of_mapM (fun e e' he => transformExpr_head hf he) h

theorem transformExprs_cons {e : Expressions.LogicalExpr Func Model Series}
    (h : transformExprs resolve (e :: es) = some es') :
    ∃ e' rest, transformExpr resolve e = some e' ∧ transformExprs resolve es = some rest ∧ es' = e' :: rest := by
  obtain ⟨e', he, h⟩ := Option.bind_eq_some_iff.mp h
  obtain ⟨rest, hrest, rfl⟩ := Option.map_eq_some_iff.mp h
  exact ⟨e', rest, he, hrest, rfl⟩

theorem transformExprs_length
    (h : transformExprs resolve es = some es') : es'.length = es.length := by
  simpa using congrArg List.length (transformExprs_head (f := fun _ => ()) (fun _ _ _ => rfl) h)

theorem logicalIndexType_eq {children children' : List (Expressions.LogicalExpr Func Model Series)}
    (h : Expressions.LogicalExpr.indexField? children' = Expressions.LogicalExpr.indexField? children) (types : List DataType) :
    ExprHead.logicalIndexType children' types = ExprHead.logicalIndexType children types := by
  unfold ExprHead.logicalIndexType
  split
  · rfl
  · rw [h]
  · rfl

end

end

/-! ### Names -/

section

variable {Func Model Series : Type} [TypeRules Func Model Series] {resolve : Resolution}

/-- `str` of what stands for a placeholder. -/
def literalText (Func Model Series : Type) [Printing Func Model Series] (resolve : Resolution) : PlaceholderText :=
  fun dataType name => call "lit" [((resolve dataType name).map (Literal.text Func Model Series)).getD ""]

theorem placeholderText_different (resolve : Resolution) :
    Different placeholderText (literalText Func Model Series resolve) := by
  intro dataType name
  refine ⟨[], 'p', 'l', ("aram(" ++ name ++ ")").toList,
    ("it(" ++ ((resolve dataType name).map (Literal.text Func Model Series)).getD "" ++ ")").toList, by decide, ?_, ?_⟩
  · simp [placeholderText, call]
  · simp [literalText, call]

mutual

theorem printed_transform : ∀ (e : Expressions.LogicalExpr Func Model Series) {e' : Expressions.LogicalExpr Func Model Series},
    transformExpr resolve e = some e' → e'.printed = e.printedAs (literalText Func Model Series resolve)
  | .node head children, e', h => by
    rcases transformExpr_cases h with ⟨dataType, name, l, rfl, rfl, hl, rfl⟩ | ⟨hhead, children', hchildren, rfl⟩
    · show call "lit" [l.text Func Model Series] = literalText Func Model Series resolve dataType name
      rw [literalText, hl]
      rfl
    · have hsort : (children'.map Expressions.LogicalExpr.head).map ExprHead.isSort =
          (children.map Expressions.LogicalExpr.head).map ExprHead.isSort := by
        rw [List.map_map, List.map_map]
        exact transformExprs_head (f := ExprHead.isSort) (fun _ _ _ => rfl) hchildren
      rw [Expressions.LogicalExpr.printed_node, Expressions.LogicalExpr.printedAs_node hhead,
        map_printed_transform children hchildren,
        ExprHead.printed_heads hsort]

theorem map_printed_transform : ∀ (es : List (Expressions.LogicalExpr Func Model Series))
    {es' : List (Expressions.LogicalExpr Func Model Series)}, transformExprs resolve es = some es' →
      es'.map Expressions.LogicalExpr.printed = es.map (Expressions.LogicalExpr.printedAs (literalText Func Model Series resolve))
  | [], es', h => by
    cases h
    rfl
  | e :: es, es', h => by
    obtain ⟨e', he, h⟩ := Option.bind_eq_some_iff.mp h
    obtain ⟨rest, hrest, rfl⟩ := Option.map_eq_some_iff.mp h
    rw [List.map_cons, List.map_cons, printed_transform e he, map_printed_transform es hrest]

end

theorem fieldName_transform {e e' : Expressions.LogicalExpr Func Model Series} (h : transformExpr resolve e = some e') :
    e'.fieldName = e.fieldNameAs (literalText Func Model Series resolve) := by
  have hprinted := printed_transform e h
  obtain ⟨head, children⟩ := e
  rcases transformExpr_cases h with ⟨dataType, name, l, rfl, rfl, -, rfl⟩ | ⟨-, children', -, rfl⟩
  · exact hprinted
  · unfold Expressions.LogicalExpr.fieldName Expressions.LogicalExpr.fieldNameAs
    rw [hprinted]
    rfl

theorem columnFieldName_transform (e : Expressions.LogicalExpr Func Model Series) :
    ∀ {e' : Expressions.LogicalExpr Func Model Series}, transformExpr resolve e = some e' →
      e'.columnFieldName = e.columnFieldNameAs (literalText Func Model Series resolve) := by
  induction e using Expressions.LogicalExpr.columnFieldName.induct with
  | case1 name children =>
    intro e' h
    obtain ⟨children', -, rfl⟩ := Option.map_eq_some_iff.mp h
    rfl
  | case2 condition value ih =>
    intro e' h
    obtain ⟨children', hchildren, rfl⟩ := Option.map_eq_some_iff.mp h
    obtain ⟨condition', rest, -, hrest, rfl⟩ := transformExprs_cons hchildren
    obtain ⟨value', rest', hvalue, hrest', rfl⟩ := transformExprs_cons hrest
    cases hrest'
    have hname := ih hvalue
    exact hname
  | case3 case condition value ih =>
    intro e' h
    obtain ⟨children', hchildren, rfl⟩ := Option.map_eq_some_iff.mp h
    obtain ⟨case', rest, -, hrest, rfl⟩ := transformExprs_cons hchildren
    obtain ⟨condition', rest', -, hrest', rfl⟩ := transformExprs_cons hrest
    obtain ⟨value', rest'', hvalue, hrest'', rfl⟩ := transformExprs_cons hrest'
    cases hrest''
    have hname := ih hvalue
    exact hname
  | case4 case value ih =>
    intro e' h
    obtain ⟨children', hchildren, rfl⟩ := Option.map_eq_some_iff.mp h
    obtain ⟨case', rest, -, hrest, rfl⟩ := transformExprs_cons hchildren
    obtain ⟨value', rest', hvalue, hrest', rfl⟩ := transformExprs_cons hrest
    cases hrest'
    have hname := ih hvalue
    exact hname
  | case5 e halias hwhen hchain hotherwise =>
    intro e' h
    have hname : e.columnFieldNameAs (literalText Func Model Series resolve) =
        e.printedAs (literalText Func Model Series resolve) := by
      rw [Expressions.LogicalExpr.columnFieldNameAs] <;> assumption
    rw [hname, ← printed_transform e h]
    obtain ⟨head, children⟩ := e
    rcases transformExpr_cases h with ⟨dataType, name, l, rfl, rfl, -, rfl⟩ | ⟨-, children', hchildren, rfl⟩
    · rfl
    · -- a case keeps the number of its children
      have hlength := transformExprs_length hchildren
      unfold Expressions.LogicalExpr.columnFieldName
      split
      next name _ heq =>
          cases heq
          exact absurd rfl (halias name children)
      next condition value heq =>
          cases heq
          obtain ⟨a, b, rfl⟩ := List.length_eq_two.mp hlength.symm
          exact absurd rfl (hwhen a b)
      next case condition value heq =>
          cases heq
          obtain ⟨a, b, c, rfl⟩ := List.length_eq_three.mp hlength.symm
          exact absurd rfl (hchain a b c)
      next case value heq =>
          cases heq
          obtain ⟨a, b, rfl⟩ := List.length_eq_two.mp hlength.symm
          exact absurd rfl (hotherwise a b)
      next => rfl

/-! ### Types -/

/-- The index of a typed field access is a literal, and that of an array is of no text. -/
theorem indexField?_transform (hresolve : resolve.Typed)
    {schema : Schema} {children children' : List (Expressions.LogicalExpr Func Model Series)} {types : List DataType}
    {t : DataType} (hchildren : transformExprs resolve children = some children')
    (htypes : Expressions.LogicalExpr.logicalTypes schema children = some types)
    (htype : ExprHead.logicalIndexType children types = some t) :
    Expressions.LogicalExpr.indexField? children' = Expressions.LogicalExpr.indexField? children := by
  rcases children with _ | ⟨e, _ | ⟨index, _ | ⟨third, rest⟩⟩⟩
  · cases hchildren
    rfl
  · obtain ⟨e', rest', -, hrest, rfl⟩ := transformExprs_cons hchildren
    cases hrest
    rfl
  · obtain ⟨e', rest', -, hrest, rfl⟩ := transformExprs_cons hchildren
    obtain ⟨index', rest'', hindex, hrest', rfl⟩ := transformExprs_cons hrest
    cases hrest'
    obtain ⟨head, arguments⟩ := index
    rcases transformExpr_cases hindex with ⟨dataType, name, l, rfl, rfl, hl, rfl⟩ | ⟨-, arguments', -, rfl⟩
    · -- only an array takes a placeholder as its index
      have hinteger : dataType = .integerType := by
        obtain ⟨t₁, -, htypes⟩ := Option.bind_eq_some_iff.mp htypes
        obtain ⟨ts, hts, rfl⟩ := Option.map_eq_some_iff.mp htypes
        obtain ⟨t₂, ht₂, hts⟩ := Option.bind_eq_some_iff.mp hts
        obtain ⟨ts', hts', rfl⟩ := Option.map_eq_some_iff.mp hts
        cases hts'
        cases ht₂
        unfold ExprHead.logicalIndexType at htype
        split at htype
        next heq =>
            cases heq
            rfl
        · cases htype
        · cases htype
      cases l with
      | string s =>
        have htext := hresolve _ _ _ hl
        rw [hinteger] at htext
        cases htext
      | _ => rfl
    · cases head with
      | literal l => cases l <;> rfl
      | _ => rfl
  · obtain ⟨e', rest', -, hrest, rfl⟩ := transformExprs_cons hchildren
    obtain ⟨index', rest'', -, hrest', rfl⟩ := transformExprs_cons hrest
    obtain ⟨third', rest''', -, -, rfl⟩ := transformExprs_cons hrest'
    simp [Expressions.LogicalExpr.indexField?]

/-- The type of a bound node, over the types of its children. -/
theorem head_logicalType_transform {schema : Schema} {head : ExprHead Func Model Series}
    {children children' : List (Expressions.LogicalExpr Func Model Series)}
    (hchildren : transformExprs resolve children = some children')
    (hindex : head = .unparameterized .index →
      Expressions.LogicalExpr.indexField? children' = Expressions.LogicalExpr.indexField? children)
    (types : List DataType) :
    head.logicalType schema children' types =
      head.typeAs (literalText Func Model Series resolve) schema children types := by
  have hnames : children'.map Expressions.LogicalExpr.name? = children.map Expressions.LogicalExpr.name? :=
    transformExprs_head (f := fun head => Expressions.LogicalExpr.name? (.node head [])) (fun _ _ _ => rfl) hchildren
  have hreturn : ∀ head : ExprHead Func Model Series, Signatures.returnType head children' types =
      Signatures.returnType head children types := fun head => by
    show TypeRules.resultType head (children'.map Expressions.LogicalExpr.name?) types = _
    rw [hnames]
    rfl
  cases head with
  | unparameterized cls =>
    cases cls with
    | index => exact logicalIndexType_eq (hindex rfl) types
    | struct =>
      have hfields : children'.map Expressions.LogicalExpr.fieldName =
          children.map (Expressions.LogicalExpr.fieldNameAs (literalText Func Model Series resolve)) := by
        rw [transformExprs_eq] at hchildren
        exact Rows.map_of_mapM (fun e e' he => fieldName_transform he) hchildren
      have hempty : children' = [] ↔ children = [] := by
        rw [← List.length_eq_zero_iff, transformExprs_length hchildren, List.length_eq_zero_iff]
      unfold ExprHead.logicalType ExprHead.typeAs
      simp only [hempty, hfields]
    | _ => exact hreturn _
  | _ => first | exact hreturn _ | rfl

mutual

/-- **A bound expression has the type that it has with its literals for the texts of the placeholders.** -/
theorem logicalType_transform (hresolve : resolve.Typed)
    (schema : Schema) : ∀ (e : Expressions.LogicalExpr Func Model Series) {e' : Expressions.LogicalExpr Func Model Series}
      {t : DataType}, e.logicalType schema = some t → transformExpr resolve e = some e' →
        e'.logicalType schema = e.typeAs (literalText Func Model Series resolve) schema
  | .node head children, e', t, htype, h => by
    obtain ⟨types, htypes, htype⟩ := Option.bind_eq_some_iff.mp htype
    rcases transformExpr_cases h with ⟨dataType, name, l, rfl, rfl, hl, rfl⟩ | ⟨-, children', hchildren, rfl⟩
    · exact congrArg some (hresolve _ _ _ hl)
    · have hindex : head = .unparameterized .index →
          Expressions.LogicalExpr.indexField? children' = Expressions.LogicalExpr.indexField? children := by
        rintro rfl
        exact indexField?_transform hresolve hchildren htypes htype
      unfold Expressions.LogicalExpr.logicalType Expressions.LogicalExpr.typeAs
      rw [logicalTypes_transform hresolve schema children htypes hchildren]
      exact congrArg (Option.bind _) (funext (head_logicalType_transform hchildren hindex))

theorem logicalTypes_transform (hresolve : resolve.Typed)
    (schema : Schema) : ∀ (es : List (Expressions.LogicalExpr Func Model Series))
      {es' : List (Expressions.LogicalExpr Func Model Series)} {ts : List DataType},
      Expressions.LogicalExpr.logicalTypes schema es = some ts → transformExprs resolve es = some es' →
        Expressions.LogicalExpr.logicalTypes schema es' =
          Expressions.LogicalExpr.typesAs (literalText Func Model Series resolve) schema es
  | [], es', ts, _, h => by
    cases h
    rfl
  | e :: es, es', ts, htypes, h => by
    obtain ⟨e', rest, he, hrest, rfl⟩ := transformExprs_cons h
    obtain ⟨t, ht, htypes⟩ := Option.bind_eq_some_iff.mp htypes
    obtain ⟨ts', hts, -⟩ := Option.map_eq_some_iff.mp htypes
    show ((Expressions.LogicalExpr.logicalType schema e').bind fun t =>
      (Expressions.LogicalExpr.logicalTypes schema rest).map fun ts => t :: ts) = _
    rw [logicalType_transform hresolve schema e ht he, logicalTypes_transform hresolve schema es hts hrest]
    rfl

end

end

end Mcp

end Fenic
