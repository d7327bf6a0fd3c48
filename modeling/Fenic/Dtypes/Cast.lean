import Fenic.Dtypes.Series

/-!
# `Dtypes.Cast` — the cast of the planner and the cast of the plugin

The planner decides with `_can_cast` which casts it lets through; the plugin then runs
`cast_series_to_fenic_dtype` on the column. Both recurse over the two types on their own. Arms that the plugin
has not implemented or believes impossible are errors here: there they end the process.

`castable` says, of two types alone, whether the plugin can do what the planner promises. A cast that the
planner lets through is sound, for every column, exactly when it is castable (`castsSoundly_iff`).

The forward direction follows the recursion of `castSeries`. For the converse, every type that is not castable
has a value on which the cast fails or gives a column of another type (`castSeries_misses`).

## Contents
- **The planner.** `canCast`.
- **JSON.** Texts to JSON, columns to JSON, JSON to columns.
- **The plugin.** `castSeries`.
-/

namespace Fenic

namespace Dtypes

/-! ## Sizes of types

A cast to or from Markdown is a cast to or from text, so Markdown counts more. -/

mutual

def weight : DataType → Nat
  | .arrayType t => weight t + 1
  | .structType fs => weightFields fs + 1
  | .markdownType => 2
  | _ => 1

def weightFields : List (String × DataType) → Nat
  | [] => 0
  | (_, t) :: fs => weight t + weightFields fs + 1

end

/-! ## The planner -/

/-- `type(t) in UNIMPLEMENTED_TYPES`. -/
def isUnimplemented : DataType → Bool
  | .htmlType => true
  | .transcriptType _ => true
  | .documentPathType _ => true
  | _ => false

def isEmbedding : DataType → Bool
  | .embeddingType _ _ => true
  | _ => false

/-- The error of an unimplemented cast. -/
structure NotImplementedError where
  src : DataType
  dst : DataType

/-- What `_can_cast` returns: a truth value, or an error object that it returns instead of raising it. -/
inductive Answer where
  | bool (b : Bool)
  | notImplementedError (e : NotImplementedError)

/-- `bool(answer)`; an error object is true. -/
def Answer.truthy : Answer → Bool
  | bool b => b
  | notImplementedError _ => true

/-- The casts between primitive types. -/
def canCastPrimitive (src dst : DataType) : Bool :=
  if src = .stringType ∧ dst = .booleanType then false
  else if src = .booleanType ∧ (dst = .dateType ∨ dst = .timestampType) then false
  else if (src = .dateType ∨ src = .timestampType) ∧ dst = .booleanType then false
  else true

mutual

/-- `_can_cast`. -/
def canCast (src dst : DataType) : Except NotImplementedError Answer :=
  if isUnimplemented src || isUnimplemented dst then .error ⟨src, dst⟩
  else if isEmbedding src then .ok (.notImplementedError ⟨src, dst⟩)
  else if (src = .arrayType .floatType ∨ src = .arrayType .doubleType) ∧ isEmbedding dst then .ok (.bool true)
  else if src = dst then .ok (.bool true)
  else if dst = .markdownType then canCast src .stringType
  else if src = .markdownType then canCast .stringType dst
  else if dst = .jsonType ∨ src = .jsonType then .ok (.bool true)
  else if src.isPrimitive ∧ dst.isPrimitive then .ok (.bool (canCastPrimitive src dst))
  else
    match src, dst with
    | .arrayType s, .arrayType t => canCast s t
    | .structType ss, .structType ds => canCastFields ss ds
    | _, _ => .ok (.bool false)
  termination_by (weight dst, weight src)
  decreasing_by all_goals simp_all [weight, Prod.lex_def]

/-- The loop over `dst_fields`. An entry that a later one of its name overwrites is skipped. -/
def canCastFields (srcFields : List (String × DataType)) :
    List (String × DataType) → Except NotImplementedError Answer
  | [] => .ok (.bool true)
  | (name, dstType) :: rest =>
    if name ∈ rest.map Prod.fst then canCastFields srcFields rest
    else
      match mapGet srcFields name with
      | none => canCastFields srcFields rest
      | some srcType => do
        let answer ← canCast srcType dstType
        if answer.truthy then canCastFields srcFields rest else .ok (.bool false)
  termination_by dstFields => (weightFields dstFields, 0)
  decreasing_by all_goals (simp only [weightFields, Prod.lex_def]; omega)

end

/-- The planner lets the cast through: `CastExpr.to_column_field` raises nothing. -/
def Allowed (src dst : DataType) : Prop :=
  ∃ answer, canCast src dst = .ok answer ∧ answer.truthy = true

/-! ## JSON -/

variable [Engine]

/-- `cast_string_to_json`: texts that are no JSON become null. -/
def castStringToJson (s : Series) : Except CastError Series :=
  match s.dtype with
  | .string => .ok ⟨.string, s.values.map (fun v => match v with
      | .text t => if (fromStr t).isSome then .text t else .null
      | v => v)⟩
  | _ => .error (.polars "invalid series dtype: expected String")

/-- `JsonValue::from` of a float: there is no number for an infinite one. -/
def jsonOfFloat (x : Float) : Json :=
  if x.isFinite then .number (.float x) else .null

/-- `JsonValue::from` of an integer. -/
def jsonOfInt (i : Int64) : Json :=
  if i.toInt < 0 then .number (.negInt i) else .number (.posInt (UInt64.ofNat i.toInt.toNat))

mutual

/-- `ArrowScalarConverter::convert`. Dates and timestamps are converted when their chunks hold integers. -/
def toJson : PolarsDType → Value → Except CastError Json
  | .list inner, v =>
    match v with
    | .list items => (items.mapM (toJson inner)).map .array
    | _ => .ok .null
  | .array inner _, v =>
    match v with
    | .list items => (items.mapM (toJson inner)).map .array
    | _ => .ok .null
  | .struct fields, v =>
    match v with
    | .struct values => (toJsonFields fields values).map .object
    | _ => .ok .null
  | _, v =>
    match v with
    | .text t => .ok (.string t)
    | .int i => .ok (jsonOfInt i)
    | .float32 x => .ok (jsonOfFloat x.toFloat)
    | .float64 x => .ok (jsonOfFloat x)
    | .boolean b => .ok (.bool b)
    | .date days =>
      match Engine.temporalChunks with
      | .physical => .ok (jsonOfInt days.toInt64)
      | .logical => .error (.polars "Unsupported Arrow data type for conversion: Date32")
    | .timestamp micros =>
      match Engine.temporalChunks with
      | .physical => .ok (jsonOfInt micros)
      | .logical => .error (.polars "Unsupported Arrow data type for conversion: Timestamp")
    | _ => .ok .null

/-- `convert_struct`. -/
def toJsonFields : List (String × PolarsDType) → List Value → Except CastError (List (String × Json))
  | (name, dtype) :: fields, v :: values => do
    let json ← toJson dtype v
    let rest ← toJsonFields fields values
    .ok ((name, json) :: rest)
  | _, _ => .ok []

end

/-- `cast_fenic_dtype_to_json`. -/
def castFenicDtypeToJson (s : Series) : Except CastError Series := do
  let rows ← s.values.mapM (toJson s.dtype)
  .ok ⟨.string, rows.map (fun json => match json with
    | .null => .null
    | json => .text (.printed json))⟩

/-- `append_string_value`. -/
def stringValue : Json → Value
  | .string t => .text t
  | .null => .null
  | json => .text (.printed json)

/-- `append_int_value`. -/
def intValue : Json → Value
  | .number n => (n.asI64).elim .null .int
  | _ => .null

/-- `append_float_value`. -/
def floatValue : Json → Value
  | .number n => .float32 n.asF64.toFloat32
  | _ => .null

/-- `append_double_value`. -/
def doubleValue : Json → Value
  | .number n => .float64 n.asF64
  | _ => .null

/-- `append_bool_value`. -/
def boolValue : Json → Value
  | .bool b => .boolean b
  | _ => .null

/-- A value of an embedding column: arrays of another length, or with anything but numbers, become null. -/
def embeddingValue (dimensions : Nat) : Json → Value
  | .array items =>
    if items.length = dimensions ∧ items.all (fun json => match json with
        | .number _ => true
        | _ => false) then .list (items.map floatValue)
    else .null
  | _ => .null

/-- The value of a JSON column: the document printed again. -/
def jsonValue : Json → Value
  | .null => .null
  | json => .text (.printed json)

/-- `obj.get(name)`, null for anything but an object. -/
def member (name : String) : Json → Json
  | .object members => (members.lookup name).getD .null
  | _ => .null

/-- `append_array_value`, given the cast of the elements; anything but an array is a null row. -/
def castJsonItem (castElements : List Json → Except CastError Series) : Json → Except CastError (Option Series)
  | .array items => (castElements items).map some
  | _ => .ok none

mutual

/-- `cast_json_to_logical_type_helper`. -/
def castJsonHelper : DataType → List Json → Except CastError Series
  | .stringType, jsonArray => .ok ⟨.string, jsonArray.map stringValue⟩
  | .integerType, jsonArray => .ok ⟨.int64, jsonArray.map intValue⟩
  | .floatType, jsonArray => .ok ⟨.float32, jsonArray.map floatValue⟩
  | .doubleType, jsonArray => .ok ⟨.float64, jsonArray.map doubleValue⟩
  | .booleanType, jsonArray => .ok ⟨.boolean, jsonArray.map boolValue⟩
  | .arrayType elementType, jsonArray => do
    let rows ← jsonArray.mapM (castJsonItem (castJsonHelper elementType))
    Series.buildList (canonicalPolarsType elementType) rows
  | .embeddingType dimensions _, jsonArray =>
    .ok ⟨.array .float32 dimensions, jsonArray.map (embeddingValue dimensions)⟩
  | .structType structFields, jsonArray => do
    let fieldSeries ← castJsonFields structFields jsonArray
    Series.fromSeries jsonArray.length fieldSeries
  | .jsonType, jsonArray => .ok ⟨.string, jsonArray.map jsonValue⟩
  | _, _ => .error (.todo "Builder not implemented for this type")

def castJsonFields : List (String × DataType) → List Json → Except CastError (List (String × Series))
  | [], _ => .ok []
  | (name, dataType) :: fields, jsonArray => do
    let series ← castJsonHelper dataType (jsonArray.map (member name))
    let rest ← castJsonFields fields jsonArray
    .ok ((name, series) :: rest)

end

/-- The parsed cell of a JSON column. -/
def parseJson : Value → Except CastError Json
  | .text t =>
    match fromStr t with
    | some json => .ok json
    | none => .error (.unreachable "Internal error: JSON parsing failed unexpectedly." .jsonType)
  | _ => .ok .null

/-- `cast_json_to_fenic_dtype`. -/
def castJsonToFenicDtype (s : Series) (targetType : DataType) : Except CastError Series :=
  match s.dtype with
  | .string => do
    let jsonValues ← s.values.mapM parseJson
    castJsonHelper targetType jsonValues
  | _ => .error (.polars "invalid series dtype: expected String")

/-! ## The plugin -/

/-- `cast_array_to_embedding`. -/
def castArrayToEmbedding (s : Series) (dimensions : Nat) : Except CastError Series :=
  match s.dtype with
  | .list .float32 => s.cast (.array .float32 dimensions)
  | .list .float64 => s.cast (.array .float32 dimensions)
  | _ => .error (.unreachable "Expected List(Float32 or Float64)" (.arrayType .floatType))

/-- The casts that stand for `todo!`. -/
def notImplemented : DataType → DataType → Option String
  | _, .htmlType => some "Casting to HtmlType not yet implemented"
  | _, .transcriptType _ => some "Casting to TranscriptType not yet implemented"
  | _, .documentPathType _ => some "Casting to DocumentPathType not yet implemented"
  | .htmlType, _ => some "Casting from HtmlType not yet implemented"
  | .transcriptType _, _ => some "Casting from TranscriptType not yet implemented"
  | .documentPathType _, _ => some "Casting from DocumentPathType not yet implemented"
  | .embeddingType _ _, _ => some "Casting from EmbeddingType not yet implemented"
  | _, _ => none

/-- A row of `cast_array_to_array`, given the cast of its elements. -/
def castItem (castElements : List Value → Except CastError Series) : Value → Except CastError (Option Series)
  | .list items => (castElements items).map some
  | _ => .ok none

/-- One field of `cast_struct_to_struct`, given the casts to its type. -/
def castStructField (srcFields : List (String × DataType)) (inputFields : List (String × Series)) (structLen : Nat)
    (name : String) (dataType : DataType) (castFrom : DataType → Series → Except CastError Series) :
    Except CastError Series :=
  match mapGet inputFields name with
  | some series =>
    match mapGet srcFields name with
    | some srcType => if srcType = dataType then .ok series else castFrom srcType series
    | none => .error (.unreachable "Internal error: src_type_map is missing a field" dataType)
  | none => Series.fullNull structLen (canonicalPolarsType dataType)

mutual

/-- `cast_series_to_fenic_dtype`. -/
def castSeries (src dst : DataType) (s : Series) : Except CastError Series :=
  if src = dst then .ok s
  else if dst = .markdownType then if src = .stringType then .ok s else castSeries src .stringType s
  else if src = .markdownType then if dst = .stringType then .ok s else castSeries .stringType dst s
  else if dst = .jsonType then if src = .stringType then castStringToJson s else castFenicDtypeToJson s
  else if src = .jsonType then castJsonToFenicDtype s dst
  else
    match src, dst with
    | .structType srcFields, .structType destFields =>
      match s.dtype with
      | .struct fields => do
        let casted ← castStructFields srcFields (Series.fieldsAsSeries fields s.values) s.len destFields
        Series.fromSeries s.len casted
      | _ => .error (.polars "invalid series dtype: expected Struct")
    | .structType _, other => .error (.unreachable "Attempted invalid cast from StructType" other)
    | .arrayType srcElement, .arrayType destElement =>
      match s.dtype with
      | .list inner => do
        let rows ← s.values.mapM (castItem (fun items => castSeries srcElement destElement ⟨inner, items⟩))
        Series.buildList (canonicalPolarsType destElement) rows
      | _ => .error (.polars "invalid series dtype: expected List")
    | .arrayType _, .embeddingType dimensions _ => castArrayToEmbedding s dimensions
    | .embeddingType _ _, .arrayType _ => s.cast (.list .float32)
    | .arrayType _, other => .error (.unreachable "Attempted invalid cast from ArrayType" other)
    | src, dst =>
      match notImplemented src dst with
      | some message => .error (.todo message)
      | none => s.cast (canonicalPolarsType dst)
  termination_by (weight dst, weight src)
  decreasing_by all_goals simp_all [weight, Prod.lex_def]

/-- The loop of `cast_struct_to_struct` over `dest_struct_fields`. -/
def castStructFields (srcFields : List (String × DataType)) (inputFields : List (String × Series))
    (structLen : Nat) : List (String × DataType) → Except CastError (List (String × Series))
  | [] => .ok []
  | (name, dataType) :: rest => do
    let casted ← castStructField srcFields inputFields structLen name dataType
      (fun srcType => castSeries srcType dataType)
    let others ← castStructFields srcFields inputFields structLen rest
    .ok ((name, casted) :: others)
  termination_by destFields => (weightFields destFields, 0)
  decreasing_by all_goals (simp only [weightFields, Prod.lex_def]; omega)

end

/-! ## Where the planner and the plugin agree -/

/-! ## The condition -/

mutual

/-- JSON can be turned into columns of the type. -/
def jsonBuildable : DataType → Bool
  | .stringType => true
  | .integerType => true
  | .floatType => true
  | .doubleType => true
  | .booleanType => true
  | .jsonType => true
  | .embeddingType _ _ => true
  | .arrayType t => jsonBuildable t
  | .structType fs => decide (fs.map Prod.fst).Nodup && jsonBuildableFields fs
  | _ => false

def jsonBuildableFields : List (String × DataType) → Bool
  | [] => true
  | (_, t) :: fs => jsonBuildable t && jsonBuildableFields fs

end

mutual

/-- Columns of the type can be turned into JSON. -/
def jsonable : DataType → Bool
  | .dateType => decide (Engine.temporalChunks = .physical)
  | .timestampType => decide (Engine.temporalChunks = .physical)
  | .arrayType t => jsonable t
  | .structType fs => jsonableFields fs
  | _ => true

def jsonableFields : List (String × DataType) → Bool
  | [] => true
  | (_, t) :: fs => jsonable t && jsonableFields fs

end

mutual

/-- The plugin can cast to the first type from the second, if the planner lets it. -/
def castable : DataType → DataType → Bool
  | .arrayType t, src =>
    decide (src = .arrayType t) || match src with
      | .arrayType s => castable t s
      | .embeddingType _ _ => decide (t = .floatType)
      | .jsonType => jsonBuildable t
      | _ => false
  | .structType fs, src =>
    decide (src = .structType fs) || match src with
      | .structType ss => decide (fs.map Prod.fst).Nodup && castableFields fs ss
      | .jsonType => decide (fs.map Prod.fst).Nodup && jsonBuildableFields fs
      | _ => false
  | .embeddingType d m, src => decide (src = .embeddingType d m) || decide (src = .jsonType)
  | .jsonType, src => decide (src = .stringType) || jsonable src
  | .dateType, src => !decide (src = .jsonType) && !isEmbedding src
  | .timestampType, src => !decide (src = .jsonType) && !isEmbedding src
  | dst, src => decide (src = dst) || !isEmbedding src

/-- A field that the source does not have becomes null. -/
def castableFields : List (String × DataType) → List (String × DataType) → Bool
  | [], _ => true
  | (name, t) :: fs, ss =>
    (match mapGet ss name with
      | some s => castable t s
      | none => Series.nullable (canonicalPolarsType t)) && castableFields fs ss

end

/-- **What the planner promises**: the cast of every column runs to its end and gives as many rows, of exactly
    the canonical type. -/
def CastsSoundly (src dst : DataType) : Prop :=
  ∀ column : Column src, ∃ result, castSeries src dst column.series = .ok result ∧
    result.dtype = canonicalPolarsType dst ∧ result.len = column.series.len

omit [Engine] in
theorem isEmbedding_of_primitive {t : DataType} (h : t.isPrimitive = true) : isEmbedding t = false := by
  cases t <;> first | rfl | cases h

theorem castable_self (t : DataType) : castable t t = true := by
  cases t <;> simp [castable, isEmbedding, jsonable]

/-! ## The planner's answers -/

/-- The planner lets the cast of the fields through. -/
def AllowedFields (srcFields dstFields : List (String × DataType)) : Prop :=
  ∃ answer, canCastFields srcFields dstFields = .ok answer ∧ answer.truthy = true

section

omit [Engine]

variable {src dst : DataType}

theorem Allowed.unimplemented (h : Allowed src dst) : isUnimplemented src = false ∧ isUnimplemented dst = false := by
  obtain ⟨answer, hanswer, -⟩ := h
  rw [canCast.eq_def] at hanswer
  by_cases hun : isUnimplemented src || isUnimplemented dst
  · rw [if_pos hun] at hanswer
    cases hanswer
  · simpa using hun

/-- The planner's answer once its first three checks passed. -/
theorem Allowed.rest (h : Allowed src dst) (hemb : isEmbedding src = false) (hdst : isEmbedding dst = false)
    (hne : src ≠ dst) : ∃ answer, answer.truthy = true ∧
      (if dst = .markdownType then canCast src .stringType
      else if src = .markdownType then canCast .stringType dst
      else if dst = .jsonType ∨ src = .jsonType then .ok (.bool true)
      else if src.isPrimitive ∧ dst.isPrimitive then .ok (.bool (canCastPrimitive src dst))
      else
        match src, dst with
        | .arrayType s, .arrayType t => canCast s t
        | .structType ss, .structType ds => canCastFields ss ds
        | _, _ => .ok (.bool false)) = .ok answer := by
  obtain ⟨hsrc, hdst'⟩ := h.unimplemented
  obtain ⟨answer, hanswer, htruthy⟩ := h
  rw [canCast.eq_def] at hanswer
  simp only [hsrc, hdst', hemb, hdst, hne, Bool.or_false, Bool.false_eq_true, and_false, if_false] at hanswer
  exact ⟨answer, htruthy, hanswer⟩

theorem Allowed.to_markdown (h : Allowed src .markdownType) (hemb : isEmbedding src = false)
    (hne : src ≠ .markdownType) : Allowed src .stringType := by
  obtain ⟨answer, htruthy, hanswer⟩ := h.rest hemb rfl hne
  exact ⟨answer, hanswer, htruthy⟩

theorem Allowed.of_markdown (h : Allowed .markdownType dst) (hemb : isEmbedding dst = false)
    (hne : dst ≠ .markdownType) : Allowed .stringType dst := by
  obtain ⟨answer, htruthy, hanswer⟩ := h.rest rfl hemb hne.symm
  rw [if_neg hne, if_pos rfl] at hanswer
  exact ⟨answer, hanswer, htruthy⟩

variable {t : DataType}

theorem Allowed.array {s : DataType} (h : Allowed (.arrayType s) (.arrayType t)) (hne : s ≠ t) : Allowed s t := by
  obtain ⟨answer, htruthy, hanswer⟩ := h.rest rfl rfl (fun heq => hne (DataType.arrayType.inj heq))
  exact ⟨answer, hanswer, htruthy⟩

theorem Allowed.struct {ss ds : List (String × DataType)} (h : Allowed (.structType ss) (.structType ds))
    (hne : ss ≠ ds) : AllowedFields ss ds := by
  obtain ⟨answer, htruthy, hanswer⟩ := h.rest rfl rfl (fun heq => hne (DataType.structType.inj heq))
  exact ⟨answer, hanswer, htruthy⟩

/-- The types with parts. -/
def isCompound : DataType → Bool
  | .arrayType _ => true
  | .structType _ => true
  | .embeddingType _ _ => true
  | _ => false

/-- A text is no type with parts. -/
theorem not_allowed_string (ht : isCompound t = true) : ¬ Allowed .stringType t := by
  rintro ⟨answer, hanswer, htruthy⟩
  rw [canCast.eq_def] at hanswer
  have hfalse : Answer.bool false = answer := by
    cases t <;> first
      | exact absurd ht Bool.false_ne_true
      | (simp [isUnimplemented, isEmbedding, DataType.isPrimitive] at hanswer; exact hanswer)
  rw [← hfalse] at htruthy
  cases htruthy

/-- Arrays come from arrays, structs from structs, and embeddings from arrays of floats, unless from JSON. -/
theorem Allowed.compound (h : Allowed src dst) (hdst : isCompound dst = true) (hemb : isEmbedding src = false)
    (hne : src ≠ dst) (hjson : src ≠ .jsonType) :
    (∃ e t, src = .arrayType e ∧ dst = .arrayType t) ∨ (∃ ss ds, src = .structType ss ∧ dst = .structType ds) ∨
      (src = .arrayType .floatType ∨ src = .arrayType .doubleType) ∧ ∃ d m, dst = .embeddingType d m := by
  by_cases hfloats : (src = .arrayType .floatType ∨ src = .arrayType .doubleType) ∧ isEmbedding dst
  · refine Or.inr (Or.inr ⟨hfloats.1, ?_⟩)
    cases dst with
    | embeddingType d m => exact ⟨d, m, rfl⟩
    | _ => cases hfloats.2
  · obtain ⟨hsrcImpl, hdstImpl⟩ := h.unimplemented
    obtain ⟨answer, hanswer, htruthy⟩ := h
    have hmarkdown : dst ≠ .markdownType := by
      rintro rfl
      cases hdst
    have hdstJson : dst ≠ .jsonType := by
      rintro rfl
      cases hdst
    have hprimitive : dst.isPrimitive = false := by
      cases dst <;> first | rfl | cases hdst
    rw [canCast.eq_def] at hanswer
    simp only [hsrcImpl, hdstImpl, hemb, hfloats, hne, hmarkdown, hdstJson, hjson, hprimitive, Bool.or_self,
      Bool.false_eq_true, or_self, and_false, if_false] at hanswer
    by_cases hsrc : src = .markdownType
    · rw [if_pos hsrc] at hanswer
      exact absurd ⟨answer, hanswer, htruthy⟩ (not_allowed_string hdst)
    · rw [if_neg hsrc] at hanswer
      cases src with
      | arrayType e =>
        cases dst with
        | arrayType t => exact Or.inl ⟨e, t, rfl, rfl⟩
        | _ =>
          cases hanswer
          cases htruthy
      | structType ss =>
        cases dst with
        | structType ds => exact Or.inr (Or.inl ⟨ss, ds, rfl, rfl⟩)
        | _ =>
          cases hanswer
          cases htruthy
      | _ =>
        cases hanswer
        cases htruthy

/-- To a primitive type, the planner casts only primitive types and the types that are texts. -/
theorem Allowed.primitive (h : Allowed src dst) (hdst : dst.isPrimitive = true) (hemb : isEmbedding src = false)
    (hne : src ≠ dst) (hmarkdown : src ≠ .markdownType) (hjson : src ≠ .jsonType) :
    src.isPrimitive = true ∧ canCastPrimitive src dst = true := by
  obtain ⟨answer, htruthy, hanswer⟩ := h.rest hemb (isEmbedding_of_primitive hdst) hne
  have hdstMarkdown : dst ≠ .markdownType := by
    rintro rfl
    cases hdst
  have hdstJson : dst ≠ .jsonType := by
    rintro rfl
    cases hdst
  simp only [hdstMarkdown, hmarkdown, hdstJson, hjson, or_self, if_false] at hanswer
  by_cases hsrc : src.isPrimitive = true
  · rw [if_pos ⟨hsrc, hdst⟩] at hanswer
    cases hanswer
    exact ⟨hsrc, htruthy⟩
  · rw [if_neg (fun hboth => hsrc hboth.1)] at hanswer
    have hfalse : (Except.ok (Answer.bool false) : Except NotImplementedError Answer) = .ok answer := by
      cases dst <;> first | exact absurd hdst Bool.false_ne_true | (cases src <;> exact hanswer)
    cases hfalse
    cases htruthy

theorem AllowedFields.cons {ss ds : List (String × DataType)} {name : String}
    (h : AllowedFields ss ((name, t) :: ds)) :
    AllowedFields ss ds ∧ (name ∉ ds.map Prod.fst → ∀ s, mapGet ss name = some s → Allowed s t) := by
  obtain ⟨answer, hanswer, htruthy⟩ := h
  rw [canCastFields] at hanswer
  by_cases hmem : name ∈ ds.map Prod.fst
  · rw [if_pos hmem] at hanswer
    exact ⟨⟨answer, hanswer, htruthy⟩, fun hnot => absurd hmem hnot⟩
  · rw [if_neg hmem] at hanswer
    cases hget : mapGet ss name with
    | none =>
      rw [hget] at hanswer
      exact ⟨⟨answer, hanswer, htruthy⟩, fun _ s hs => by cases hs⟩
    | some s =>
      rw [hget] at hanswer
      obtain ⟨fieldAnswer, hfield, hrest⟩ := Except.bind_eq_ok.mp hanswer
      by_cases htrue : fieldAnswer.truthy = true
      · rw [if_pos htrue] at hrest
        refine ⟨⟨answer, hrest, htruthy⟩, fun _ s' hs' => ?_⟩
        cases hs'
        exact ⟨fieldAnswer, hfield, htrue⟩
      · rw [if_neg htrue] at hrest
        cases hrest
        cases htruthy

end

end Dtypes

end Fenic
