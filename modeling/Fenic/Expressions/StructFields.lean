import Mathlib
import Fenic.Expressions.OutputName
import Fenic.Lib.Rows

/-!
# `Expressions.StructFields` — the fields of planned and of converted structs

`logicalType` is the type that `to_column_field` gives an expression, and `engineType` that of the column which the
engine makes of the converted expression. They go apart at a struct: the one names a field by the alias or the printed
form of its argument, the other by the name of the converted argument. `structsAgree_iff` says for which expressions every
struct has the same fields on both sides, and every field access reads the field it was planned to read.

What type any other function gives its result is left open (`Signatures`); it is the same on both sides when the
arguments have the same types.
-/

namespace Fenic

namespace Expressions

mutual

/-- The type of a literal. -/
def Literal.dataType : Literal → DataType
  | .null t => t
  | .string _ => .stringType
  | .integer _ => .integerType
  | .float _ => .floatType
  | .double _ => .doubleType
  | .boolean _ => .booleanType
  | .date _ => .dateType
  | .timestamp _ _ => .timestampType
  | .array t _ => .arrayType t
  | .struct fields => .structType (Literal.fieldTypes fields)

def Literal.fieldTypes : List (String × Literal) → List (String × DataType)
  | [] => []
  | (name, l) :: fields => (name, l.dataType) :: Literal.fieldTypes fields

end

/-- The types of series, and the types that functions give their results on arguments that they take. -/
class Signatures (Func Model Series : Type) extends Printing Func Model Series where
  seriesType : Series → DataType
  returnType : ExprHead Func Model Series → List (LogicalExpr Func Model Series) → List DataType → Option DataType

section

variable {Func Model Series : Type}

namespace LogicalExpr

mutual

/-- The expression and all expressions in it. -/
def subexprs : LogicalExpr Func Model Series → List (LogicalExpr Func Model Series)
  | .node head children => .node head children :: subexprsList children

def subexprsList : List (LogicalExpr Func Model Series) → List (LogicalExpr Func Model Series)
  | [] => []
  | e :: es => subexprs e ++ subexprsList es

end

mutual

theorem mem_subexprs_trans {r s : LogicalExpr Func Model Series} : ∀ e : LogicalExpr Func Model Series,
    s ∈ e.subexprs → r ∈ s.subexprs → r ∈ e.subexprs
  | .node head children, hs, hr => by
    rcases List.mem_cons.mp hs with rfl | hs
    · exact hr
    · exact List.mem_cons_of_mem _ (mem_subexprsList_trans children hs hr)

theorem mem_subexprsList_trans {r s : LogicalExpr Func Model Series} : ∀ es : List (LogicalExpr Func Model Series),
    s ∈ subexprsList es → r ∈ s.subexprs → r ∈ subexprsList es
  | [], hs, _ => absurd hs List.not_mem_nil
  | e :: es, hs, hr => by
    rcases List.mem_append.mp hs with hs | hs
    · exact List.mem_append_left _ (mem_subexprs_trans e hs hr)
    · exact List.mem_append_right _ (mem_subexprsList_trans es hs hr)

end

end LogicalExpr

variable [Signatures Func Model Series]

/-! ## Planned types -/

namespace LogicalExpr

/-- The name of a struct field: `arg.name` of an alias, `str(arg)` of anything else. -/
def fieldName (e : LogicalExpr Func Model Series) : String :=
  match e.head with
  | .alias name => name
  | _ => e.printed

/-- The field that an index by a text names. -/
def indexField? : List (LogicalExpr Func Model Series) → Option String
  | [_, .node (.literal (.string field)) _] => some field
  | _ => none

end LogicalExpr

/-- The type of a column. -/
def columnType (schema : Schema) (name : String) : Option DataType :=
  (schema.find? fun f => f.name = name).map ColumnField.dataType

namespace ExprHead

/-- `IndexExpr.to_column_field`. -/
def logicalIndexType (children : List (LogicalExpr Func Model Series)) : List DataType → Option DataType
  | [.arrayType t, .integerType] => some t
  | [.structType fields, _] => (LogicalExpr.indexField? children).bind fun field => fields.lookup field
  | _ => none

/-- `to_column_field(...).data_type`, given the types of the children. -/
def logicalType (schema : Schema) (children : List (LogicalExpr Func Model Series)) (types : List DataType) :
    ExprHead Func Model Series → Option DataType
  | .column name => columnType schema name
  | .literal l => some l.dataType
  | .seriesLiteral series => some (Signatures.seriesType Func Model series)
  | .unresolvedLiteral dataType _ => some dataType
  | .alias _ => types.head?
  | .sort _ _ => types.head?
  | .unparameterized .index => logicalIndexType children types
  | .unparameterized .struct =>
    if children = [] then none else some (.structType ((children.map LogicalExpr.fieldName).zip types))
  | head => Signatures.returnType head children types

end ExprHead

namespace LogicalExpr

mutual

/-- The planned type of an expression over a frame of the given schema. -/
def logicalType (schema : Schema) : LogicalExpr Func Model Series → Option DataType
  | .node head children => (logicalTypes schema children).bind (head.logicalType schema children ·)

def logicalTypes (schema : Schema) : List (LogicalExpr Func Model Series) → Option (List DataType)
  | [] => some []
  | e :: es => (logicalType schema e).bind fun t => (logicalTypes schema es).map fun ts => t :: ts

end

end LogicalExpr

/-! ## Types of the engine -/

namespace ExprHead

/-- `_convert_index_expr`: `input_type` is the kind of the planned type. -/
def engineIndexType (children : List (LogicalExpr Func Model Series)) (inputType : Option DataType) :
    List DataType → Option DataType
  | .arrayType t :: _ =>
    match inputType with
    | some (.arrayType _) => some t
    | _ => none
  | .structType fields :: _ =>
    match inputType with
    | some (.structType _) => (LogicalExpr.indexField? children).bind fun field => fields.lookup field
    | _ => none
  | _ => none

/-- `pl.struct`, which takes no two columns of one name. -/
def engineStructType (children : List (LogicalExpr Func Model Series)) (types : List DataType) : Option DataType :=
  (children.mapM LogicalExpr.outputName).bind fun names =>
    if children ≠ [] ∧ names.Nodup then some (.structType (names.zip types)) else none

/-- The type of the converted expression, given the planned types of the children and those of their columns. -/
def engineType (frame : Schema) (children : List (LogicalExpr Func Model Series)) (planned types : List DataType) :
    ExprHead Func Model Series → Option DataType
  | .column name => columnType frame name
  | .literal l => some l.dataType
  | .seriesLiteral series => some (Signatures.seriesType Func Model series)
  -- the converter raises
  | .unresolvedLiteral _ _ => none
  | .sort _ _ => none
  | .alias _ => types.head?
  | .unparameterized .index => engineIndexType children planned.head? types
  | .unparameterized .struct => engineStructType children types
  | head => Signatures.returnType head children types

/-- `semantic.reduce` converts the expressions of its sort orders, not the orders. -/
def takesOrders : ExprHead Func Model Series → Bool
  | .semanticReduce .. => true
  | _ => false

end ExprHead

namespace LogicalExpr

mutual

/-- The type of the column that the engine makes of the converted expression over a frame, which was planned to have the
    given schema. Where sort orders are taken, an order stands for its expression. -/
def engineTypeAt (schema frame : Schema) (orders : Bool) : LogicalExpr Func Model Series → Option DataType
  | .node head children =>
    if orders && head.isSort then (engineTypes schema frame false children).bind List.head?
    else
      (logicalTypes schema children).bind fun planned =>
        (engineTypes schema frame head.takesOrders children).bind fun types =>
          head.engineType frame children planned types

def engineTypes (schema frame : Schema) (orders : Bool) : List (LogicalExpr Func Model Series) → Option (List DataType)
  | [] => some []
  | e :: es =>
    (engineTypeAt schema frame orders e).bind fun t => (engineTypes schema frame orders es).map fun ts => t :: ts

end

/-- The type of the column of a converted expression, over a frame that has the planned schema. -/
def engineType (schema : Schema) (e : LogicalExpr Func Model Series) : Option DataType := engineTypeAt schema schema false e

mutual

/-- The converter takes the expression: there are no placeholders in it, and sort orders only where they are taken. -/
def convertsAt (orders : Bool) : LogicalExpr Func Model Series → Bool
  | .node head children =>
    match head with
    | .unresolvedLiteral _ _ => false
    | .sort _ _ => orders && childrenConvert false children
    | head => childrenConvert head.takesOrders children

def childrenConvert (orders : Bool) : List (LogicalExpr Func Model Series) → Bool
  | [] => true
  | e :: es => convertsAt orders e && childrenConvert orders es

end

def converts (e : LogicalExpr Func Model Series) : Bool := convertsAt false e

/-! ## Agreement -/

def isStruct (e : LogicalExpr Func Model Series) : Prop := e.head = .unparameterized .struct

def isIndex (e : LogicalExpr Func Model Series) : Prop := e.head = .unparameterized .index

/-- The position that a field access reads in a struct of the given type. -/
def fieldPosition (children : List (LogicalExpr Func Model Series)) : List DataType → Option Nat
  | .structType fields :: _ => (indexField? children).bind fun field => fields.findIdx? fun f => f.1 = field
  | _ => none

/-- A struct or an index has its planned type, and a field access reads the planned field. -/
structure Agrees (schema : Schema) (e : LogicalExpr Func Model Series) : Prop where
  types : e.engineType schema = e.logicalType schema
  fields : (engineTypes schema schema false e.children).bind (fieldPosition e.children) =
    (logicalTypes schema e.children).bind (fieldPosition e.children)

/-- The engine gives the argument of a struct its planned name: it is a column or an alias, or it hides its name, and the
    name happens to be its printed form. -/
def IsNamed (e : LogicalExpr Func Model Series) : Prop :=
  (∃ name, e.head = .column name) ∨ (∃ name, e.head = .alias name) ∨
    (e.hidesName = true ∧ e.outputName = some e.printed)

/-- The arguments of a struct are named, and apart. -/
structure NamesFields (e : LogicalExpr Func Model Series) : Prop where
  named : ∀ argument ∈ e.children, argument.IsNamed
  apart : (e.children.map fieldName).Nodup

theorem outputName_eq_fieldName {e : LogicalExpr Func Model Series} :
    e.outputName = some e.fieldName ↔ e.IsNamed := by
  obtain ⟨head, children⟩ := e
  by_cases hcolumn : ∃ name, head = .column name
  · obtain ⟨name, rfl⟩ := hcolumn
    exact ⟨fun _ => Or.inl ⟨name, rfl⟩, fun _ => rfl⟩
  by_cases halias : ∃ name, head = .alias name
  · obtain ⟨name, rfl⟩ := halias
    exact ⟨fun _ => Or.inr (Or.inl ⟨name, rfl⟩), fun _ => rfl⟩
  have hfield : fieldName (.node head children) = printed (.node head children) := by
    unfold fieldName
    split
    next name hname => exact absurd ⟨name, hname⟩ halias
    next => rfl
  rw [hfield]
  constructor
  · intro hname
    refine Or.inr (Or.inr ⟨?_, hname⟩)
    by_contra hhides
    have hcolumn' : ∀ name, (LogicalExpr.node head children).head ≠ .column name := fun name h => hcolumn ⟨name, h⟩
    exact outputName_ne_printed hcolumn' (Bool.eq_false_of_not_eq_true hhides) hname
  · rintro (hname | hname | ⟨-, hname⟩)
    · exact absurd hname hcolumn
    · exact absurd hname halias
    · exact hname

/-! ### Types of lists -/

theorem logicalTypes_length {schema : Schema} {es : List (LogicalExpr Func Model Series)} {ts : List DataType}
    (h : logicalTypes schema es = some ts) : ts.length = es.length := by
  induction es generalizing ts with
  | nil =>
    cases h
    rfl
  | cons e es ih =>
    obtain ⟨t, -, h⟩ := Option.bind_eq_some_iff.mp h
    obtain ⟨ts', hts, rfl⟩ := Option.map_eq_some_iff.mp h
    rw [List.length_cons, List.length_cons, ih hts]

theorem engineTypes_length {schema frame : Schema} {orders : Bool} {es : List (LogicalExpr Func Model Series)}
    {ts : List DataType} (h : engineTypes schema frame orders es = some ts) : ts.length = es.length := by
  induction es generalizing ts with
  | nil =>
    cases h
    rfl
  | cons e es ih =>
    obtain ⟨t, -, h⟩ := Option.bind_eq_some_iff.mp h
    obtain ⟨ts', hts, rfl⟩ := Option.map_eq_some_iff.mp h
    rw [List.length_cons, List.length_cons, ih hts]

end LogicalExpr

/-! ### One node -/

variable {children : List (LogicalExpr Func Model Series)}

theorem mapM_outputName :
    children.mapM LogicalExpr.outputName = some (children.map LogicalExpr.fieldName) ↔
      ∀ argument ∈ children, argument.IsNamed := by
  rw [Rows.mapM_eq_some, List.map_map, List.map_inj_left]
  exact forall₂_congr fun argument _ => LogicalExpr.outputName_eq_fieldName

variable {types : List DataType}

/-- A converted struct whose arguments are named has the planned fields. -/
theorem ExprHead.engineStructType_eq
    (hne : children ≠ []) (hnames : LogicalExpr.NamesFields (.node (.unparameterized .struct) children)) :
    engineStructType children types = some (.structType ((children.map LogicalExpr.fieldName).zip types)) := by
  obtain ⟨hnamed, hapart⟩ := hnames
  have hmapM := mapM_outputName.mpr hnamed
  rw [LogicalExpr.children] at hmapM
  rw [engineStructType, hmapM, Option.bind_some]
  exact if_pos ⟨hne, hapart⟩

/-- A converted struct with the planned fields has arguments that are named. -/
theorem ExprHead.namesFields_of_engineStructType
    {planned : List DataType} (htypes : types.length = children.length)
    (hplanned : planned.length = children.length)
    (h : engineStructType children types = some (.structType ((children.map LogicalExpr.fieldName).zip planned))) :
    LogicalExpr.NamesFields (.node (.unparameterized .struct) children) := by
  obtain ⟨names, hmapM, h⟩ := Option.bind_eq_some_iff.mp h
  obtain ⟨⟨-, hnodup⟩, h⟩ := Option.ite_none_right_eq_some.mp h
  injection h with h
  injection h with h
  have hnamesLength : names.length = types.length := by
    have := congrArg List.length (Rows.mapM_eq_some.mp hmapM)
    rw [List.length_map, List.length_map] at this
    omega
  -- the lists of fields have one length, so the names are equal
  have heq : names = children.map LogicalExpr.fieldName := by
    have := congrArg (List.map Prod.fst) h
    rwa [List.map_fst_zip (by omega), List.map_fst_zip (by rw [List.length_map]; omega)] at this
  rw [heq] at hmapM hnodup
  exact ⟨mapM_outputName.mp hmapM, hnodup⟩

omit [Signatures Func Model Series] in
theorem ExprHead.engineIndexType_eq
    {t : DataType} (h : logicalIndexType children types = some t) :
    engineIndexType children types.head? types = some t := by
  unfold logicalIndexType at h
  split at h
  · exact h
  · exact h
  · cases h

/-- On the planned types of its arguments, a converted node has its planned type. -/
theorem ExprHead.engineType_eq {schema : Schema}
    {head : ExprHead Func Model Series} {t : DataType}
    (hconverts : LogicalExpr.converts (.node head children) = true)
    (htype : head.logicalType schema children types = some t)
    (hnames : head = .unparameterized .struct → LogicalExpr.NamesFields (.node head children)) :
    head.engineType schema children types types = some t := by
  cases head with
  | unresolvedLiteral => cases hconverts
  | sort => cases hconverts
  | unparameterized cls =>
    cases cls with
    | index => exact engineIndexType_eq htype
    | struct =>
      obtain ⟨hne, htype⟩ := Option.ite_none_left_eq_some.mp htype
      rw [← htype]
      exact engineStructType_eq hne (hnames rfl)
    | _ => exact htype
  | _ => exact htype

namespace LogicalExpr

/-! ### Whole expressions -/

omit [Signatures Func Model Series] in
/-- What is not an order in its place converts when its children do. -/
theorem convertsAt_node {head : ExprHead Func Model Series} {children : List (LogicalExpr Func Model Series)}
    {orders : Bool} (horder : ¬ (orders && head.isSort) = true) (h : convertsAt orders (.node head children) = true) :
    converts (.node head children) = true ∧ childrenConvert head.takesOrders children = true := by
  cases head with
  | sort =>
    cases orders with
    | false => cases h
    | true => exact absurd rfl horder
  | unresolvedLiteral => cases h
  | _ => exact ⟨h, h⟩

mutual

/-- An expression that converts, and names the fields of its structs, has its planned type. -/
theorem engineTypeAt_eq (schema : Schema) : ∀ (e : LogicalExpr Func Model Series) (orders : Bool) (t : DataType),
    e.convertsAt orders = true → (∀ s ∈ e.subexprs, s.isStruct → s.NamesFields) → e.logicalType schema = some t →
      e.engineTypeAt schema schema orders = some t
  | .node head children, orders, t, hconverts, hnames, htype => by
    obtain ⟨types, htypes, htype⟩ := Option.bind_eq_some_iff.mp htype
    have hchildrenNames : ∀ s ∈ subexprsList children, s.isStruct → s.NamesFields :=
      fun s hs => hnames s (List.mem_cons_of_mem _ hs)
    unfold engineTypeAt
    split
    next horder =>
        -- an order stands for its expression
        obtain ⟨rfl, hsort⟩ := Bool.and_eq_true_iff.mp horder
        cases head with
        | sort =>
          rw [engineTypes_eq schema children false types hconverts hchildrenNames htypes]
          exact htype
        | _ => cases hsort
    next horder =>
        obtain ⟨hhead, hchildren⟩ := convertsAt_node horder hconverts
        rw [htypes, engineTypes_eq schema children _ types hchildren hchildrenNames htypes]
        exact ExprHead.engineType_eq hhead htype fun hstruct =>
          hnames _ List.mem_cons_self hstruct

theorem engineTypes_eq (schema : Schema) : ∀ (es : List (LogicalExpr Func Model Series)) (orders : Bool)
    (ts : List DataType), childrenConvert orders es = true → (∀ s ∈ subexprsList es, s.isStruct → s.NamesFields) →
      logicalTypes schema es = some ts → engineTypes schema schema orders es = some ts
  | [], _, _, _, _, htypes => htypes
  | e :: es, orders, ts, hconverts, hnames, htypes => by
    obtain ⟨he, hes⟩ := Bool.and_eq_true_iff.mp hconverts
    obtain ⟨t, ht, htypes⟩ := Option.bind_eq_some_iff.mp htypes
    obtain ⟨ts', hts, rfl⟩ := Option.map_eq_some_iff.mp htypes
    have hhead := engineTypeAt_eq schema e orders t he (fun s hs => hnames s (List.mem_append_left _ hs)) ht
    have htail := engineTypes_eq schema es orders ts' hes (fun s hs => hnames s (List.mem_append_right _ hs)) hts
    show ((engineTypeAt schema schema orders e).bind fun t => (engineTypes schema schema orders es).map fun ts => t :: ts) = _
    rw [hhead, htail]
    rfl

end

mutual

/-- What has a type of the engine converts. -/
theorem convertsAt_of_engineTypeAt (schema frame : Schema) : ∀ (e : LogicalExpr Func Model Series) (orders : Bool) (t : DataType),
    e.engineTypeAt schema frame orders = some t → e.convertsAt orders = true
  | .node head children, orders, t, h => by
    unfold engineTypeAt at h
    split at h
    next horder =>
        obtain ⟨rfl, hsort⟩ := Bool.and_eq_true_iff.mp horder
        obtain ⟨types, htypes, -⟩ := Option.bind_eq_some_iff.mp h
        cases head with
        | sort => exact childrenConvert_of_engineTypes schema frame children false types htypes
        | _ => cases hsort
    next horder =>
        obtain ⟨planned, -, h⟩ := Option.bind_eq_some_iff.mp h
        obtain ⟨types, htypes, h⟩ := Option.bind_eq_some_iff.mp h
        have hchildren := childrenConvert_of_engineTypes schema frame children _ types htypes
        cases head with
        | sort => cases h
        | unresolvedLiteral => cases h
        | _ => exact hchildren

theorem childrenConvert_of_engineTypes (schema frame : Schema) : ∀ (es : List (LogicalExpr Func Model Series)) (orders : Bool)
    (ts : List DataType), engineTypes schema frame orders es = some ts → childrenConvert orders es = true
  | [], _, _, _ => rfl
  | e :: es, orders, ts, h => by
    obtain ⟨t, ht, h⟩ := Option.bind_eq_some_iff.mp h
    obtain ⟨ts', hts, -⟩ := Option.map_eq_some_iff.mp h
    exact Bool.and_eq_true_iff.mpr
      ⟨convertsAt_of_engineTypeAt schema frame e orders t ht, childrenConvert_of_engineTypes schema frame es orders ts' hts⟩

end

mutual

/-- What is in an expression that has a planned type has one too. -/
theorem logicalType_of_mem (schema : Schema) {s : LogicalExpr Func Model Series} : ∀ (e : LogicalExpr Func Model Series)
    (t : DataType), e.logicalType schema = some t → s ∈ e.subexprs → ∃ u, s.logicalType schema = some u
  | .node head children, t, ht, hs => by
    rcases List.mem_cons.mp hs with rfl | hs
    · exact ⟨t, ht⟩
    · obtain ⟨types, htypes, -⟩ := Option.bind_eq_some_iff.mp ht
      exact logicalType_of_mem_list schema children types htypes hs

theorem logicalType_of_mem_list (schema : Schema) {s : LogicalExpr Func Model Series} :
    ∀ (es : List (LogicalExpr Func Model Series)) (ts : List DataType), logicalTypes schema es = some ts →
      s ∈ subexprsList es → ∃ u, s.logicalType schema = some u
  | [], _, _, hs => absurd hs List.not_mem_nil
  | e :: es, ts, hts, hs => by
    obtain ⟨t, ht, hts⟩ := Option.bind_eq_some_iff.mp hts
    obtain ⟨ts', hts, -⟩ := Option.map_eq_some_iff.mp hts
    rcases List.mem_append.mp hs with hs | hs
    · exact logicalType_of_mem schema e t ht hs
    · exact logicalType_of_mem_list schema es ts' hts hs

end

/-- A struct that has its planned type names its fields. -/
theorem namesFields_of_types {schema : Schema} {e : LogicalExpr Func Model Series} {t : DataType} (hstruct : e.isStruct)
    (hplanned : e.logicalType schema = some t) (hengine : e.engineType schema = some t) : e.NamesFields := by
  obtain ⟨head, children⟩ := e
  obtain rfl : head = .unparameterized .struct := hstruct
  obtain ⟨planned, hplannedTypes, hplanned⟩ := Option.bind_eq_some_iff.mp hplanned
  obtain ⟨planned', hplannedTypes', hengine⟩ := Option.bind_eq_some_iff.mp hengine
  obtain ⟨types, htypes, hengine⟩ := Option.bind_eq_some_iff.mp hengine
  obtain ⟨-, hplanned⟩ := Option.ite_none_left_eq_some.mp hplanned
  rw [← hplanned] at hengine
  exact ExprHead.namesFields_of_engineStructType (engineTypes_length htypes) (logicalTypes_length hplannedTypes) hengine

/-- A field access in an expression reads a struct of its planned type. -/
theorem engineTypes_of_converts {schema : Schema} {e : LogicalExpr Func Model Series} {t : DataType}
    (huses : e.isStruct ∨ e.isIndex) (hconverts : e.converts = true)
    (hnames : ∀ s ∈ e.subexprs, s.isStruct → s.NamesFields) (hplanned : e.logicalType schema = some t) :
    engineTypes schema schema false e.children = logicalTypes schema e.children := by
  obtain ⟨head, children⟩ := e
  obtain ⟨planned, hplannedTypes, -⟩ := Option.bind_eq_some_iff.mp hplanned
  have hchildren : childrenConvert false children = true := by
    rcases huses with hstruct | hindex
    · obtain rfl : head = .unparameterized .struct := hstruct
      exact hconverts
    · obtain rfl : head = .unparameterized .index := hindex
      exact hconverts
  show engineTypes schema schema false children = logicalTypes schema children
  rw [hplannedTypes]
  exact engineTypes_eq schema children false planned hchildren (fun s hs => hnames s (List.mem_cons_of_mem _ hs))
    hplannedTypes

/-- **In a typed expression, every struct has its planned fields, and every field access reads the planned field, exactly
    when the arguments of the structs are named.** -/
theorem structsAgree_iff (schema : Schema) (e : LogicalExpr Func Model Series) (t : DataType)
    (htype : e.logicalType schema = some t) :
    (∀ s ∈ e.subexprs, s.isStruct ∨ s.isIndex → s.Agrees schema) ↔
      ∀ s ∈ e.subexprs, s.isStruct ∨ s.isIndex → s.converts = true ∧ (s.isStruct → s.NamesFields) := by
  constructor
  · intro h s hs huses
    obtain ⟨u, hplanned⟩ := logicalType_of_mem schema e t htype hs
    have hengine : s.engineType schema = some u := (h s hs huses).types.trans hplanned
    exact ⟨convertsAt_of_engineTypeAt schema schema s false u hengine, fun hstruct =>
      namesFields_of_types hstruct hplanned hengine⟩
  · intro h s hs huses
    obtain ⟨u, hplanned⟩ := logicalType_of_mem schema e t htype hs
    have hnames : ∀ r ∈ s.subexprs, r.isStruct → r.NamesFields := fun r hr hstruct =>
      (h r (mem_subexprs_trans e hs hr) (Or.inl hstruct)).2 hstruct
    have hconverts := (h s hs huses).1
    refine ⟨?_, ?_⟩
    · rw [hplanned]
      exact engineTypeAt_eq schema s false u hconverts hnames hplanned
    · rw [engineTypes_of_converts huses hconverts hnames hplanned]

end LogicalExpr

end

/-! ## A sum in a struct -/

namespace StructExamples

/-- Texts of opaque values are left out, and every function of integers gives an integer. -/
local instance : Signatures Empty Empty Empty where
  funcName := nofun
  literal _ := ""
  contentHash s := s
  schemaHash _ := ""
  contextNames s := s
  textChunkConfiguration _ := ""
  recursiveTextChunkConfiguration _ := ""
  modelAlias _ := ""
  seriesLength := nofun
  seriesName := nofun
  seriesType := nofun
  returnType _ _ types := types.head?

def schema : Schema := [⟨"a", .integerType⟩, ⟨"b", .stringType⟩]

def column (name : String) : LogicalExpr Empty Empty Empty := .node (.column name) []

def struct (arguments : List (LogicalExpr Empty Empty Empty)) : LogicalExpr Empty Empty Empty :=
  .node (.unparameterized .struct) arguments

/-- `col("a") + 1`. -/
def aPlusOne : LogicalExpr Empty Empty Empty := .node (.arithmetic .plus) [column "a", .node (.literal (.integer 1)) []]

/-- `e[name]`. -/
def field (e : LogicalExpr Empty Empty Empty) (name : String) : LogicalExpr Empty Empty Empty :=
  .node (.unparameterized .index) [e, .node (.literal (.string name)) []]

/-- `struct(col("b"), (col("a") + 1).alias("c"))`. -/
def named : LogicalExpr Empty Empty Empty := struct [column "b", .node (.alias "c") [aPlusOne]]

theorem named_namesFields : named.NamesFields where
  named argument hargument := by
    rcases List.mem_cons.mp hargument with rfl | hargument
    · exact Or.inl ⟨"b", rfl⟩
    · rw [List.mem_singleton.mp hargument]
      exact Or.inr (Or.inl ⟨"c", rfl⟩)
  apart := by decide

/-- A struct of a column and of an alias agrees, and so does an access of its field. -/
theorem named_agrees :
    (field named "c").logicalType schema = some .integerType ∧
      ∀ s ∈ (field named "c").subexprs, s.isStruct ∨ s.isIndex → s.Agrees schema := by
  refine ⟨by decide, (LogicalExpr.structsAgree_iff schema (field named "c") .integerType (by decide)).mpr ?_⟩
  intro s hs huses
  have hnodes : s ∈ [field named "c", named, column "b", .node (.alias "c") [aPlusOne], aPlusOne, column "a",
      .node (.literal (.integer 1)) [], .node (.literal (.string "c")) []] := hs
  simp only [List.mem_cons, List.not_mem_nil, or_false] at hnodes
  rcases hnodes with rfl | rfl | rfl | rfl | rfl | rfl | rfl | rfl
  · exact ⟨by decide, by rintro ⟨⟩⟩
  · exact ⟨by decide, fun _ => named_namesFields⟩
  all_goals exact absurd huses (by rintro (h | h) <;> cases h)

/-- `struct(col("a") + 1, col("b").alias("(a + lit(1))"))`. -/
def unnamed : LogicalExpr Empty Empty Empty := struct [aPlusOne, .node (.alias "(a + lit(1))") [column "b"]]

/-- The planned field of a sum is not made, so that its access fails, or reads another field that has the name. -/
theorem unnamed_not_agrees :
    (¬ ∀ s ∈ (field (struct [aPlusOne]) "(a + lit(1))").subexprs, s.isStruct ∨ s.isIndex → s.Agrees schema) ∧
      (struct [aPlusOne]).logicalType schema = some (.structType [("(a + lit(1))", .integerType)]) ∧
      (struct [aPlusOne]).engineType schema = some (.structType [("a", .integerType)]) ∧
      (field (struct [aPlusOne]) "(a + lit(1))").engineType schema = none ∧
      (field unnamed "(a + lit(1))").logicalType schema = some .integerType ∧
      (field unnamed "(a + lit(1))").engineType schema = some .stringType := by
  refine ⟨fun h => ?_, by decide, by decide, by decide, by decide, by decide⟩
  have hagrees := h (field (struct [aPlusOne]) "(a + lit(1))") List.mem_cons_self (Or.inr rfl)
  exact absurd hagrees.types (by decide)

end StructExamples

end Expressions

end Fenic
