import Mathlib
import Fenic.Lib.Except
import Fenic.Types.DataType

/-!
# `Dtypes.Series` — physical columns

Physical types, the values of a column, and what the data frame engine and the JSON library do with them, as
far as the casts of `rust/src/dtypes` use it. `Column t` is a column that a frame can really hold for the
logical type `t`: its physical type is the canonical one of `t`, and every value fits `t`, with nulls at any
level.

## Contents
- **Physical types.** `PolarsDType` and `canonicalPolarsType`.
- **Values.** JSON documents, texts and cells; `Fits`.
- **The engine.** `Engine` is what stays open about it; `Series` and its operations.
-/

namespace Fenic

namespace Dtypes

/-! ## Physical types -/

inductive PolarsDType where
  | string
  | int64
  | float32
  | float64
  | boolean
  | date
  /-- `Datetime(Microseconds, "UTC")`. -/
  | datetime
  | list (inner : PolarsDType)
  | array (inner : PolarsDType) (width : Nat)
  | struct (fields : List (String × PolarsDType))

namespace PolarsDType

mutual

def beq : PolarsDType → PolarsDType → Bool
  | .string, .string => true
  | .int64, .int64 => true
  | .float32, .float32 => true
  | .float64, .float64 => true
  | .boolean, .boolean => true
  | .date, .date => true
  | .datetime, .datetime => true
  | .list s, .list t => beq s t
  | .array s m, .array t n => beq s t && m == n
  | .struct fs, .struct gs => beqFields fs gs
  | _, _ => false

def beqFields : List (String × PolarsDType) → List (String × PolarsDType) → Bool
  | [], [] => true
  | (n, s) :: fs, (m, t) :: gs => n == m && beq s t && beqFields fs gs
  | _, _ => false

end

mutual

theorem eq_of_beq : ∀ (s t : PolarsDType), beq s t = true → s = t
  | .list s, t, h => by
    cases t <;> simp only [beq, Bool.false_eq_true] at h
    rw [eq_of_beq s _ h]
  | .array s m, t, h => by
    cases t <;> simp only [beq, Bool.false_eq_true, Bool.and_eq_true, beq_iff_eq] at h
    rw [eq_of_beq s _ h.1, h.2]
  | .struct fs, t, h => by
    cases t <;> simp only [beq, Bool.false_eq_true] at h
    rw [eq_of_beqFields fs _ h]
  | .string, t, h => by cases t <;> first | rfl | cases h
  | .int64, t, h => by cases t <;> first | rfl | cases h
  | .float32, t, h => by cases t <;> first | rfl | cases h
  | .float64, t, h => by cases t <;> first | rfl | cases h
  | .boolean, t, h => by cases t <;> first | rfl | cases h
  | .date, t, h => by cases t <;> first | rfl | cases h
  | .datetime, t, h => by cases t <;> first | rfl | cases h

theorem eq_of_beqFields : ∀ (fs gs : List (String × PolarsDType)), beqFields fs gs = true → fs = gs
  | [], [], _ => rfl
  | [], _ :: _, h => by simp [beqFields] at h
  | _ :: _, [], h => by simp [beqFields] at h
  | (n, s) :: fs, (m, t) :: gs, h => by
    simp only [beqFields, Bool.and_eq_true, beq_iff_eq] at h
    rw [h.1.1, eq_of_beq s t h.1.2, eq_of_beqFields fs gs h.2]

end

mutual

theorem beq_refl : ∀ t : PolarsDType, beq t t = true
  | .list t => beq_refl t
  | .array t _ => by simp [beq, beq_refl t]
  | .struct fs => beqFields_refl fs
  | .string => rfl
  | .int64 => rfl
  | .float32 => rfl
  | .float64 => rfl
  | .boolean => rfl
  | .date => rfl
  | .datetime => rfl

theorem beqFields_refl : ∀ fs : List (String × PolarsDType), beqFields fs fs = true
  | [] => rfl
  | (n, t) :: fs => by simp [beqFields, beq_refl t, beqFields_refl fs]

end

instance : DecidableEq PolarsDType := fun s t =>
  decidable_of_iff (beq s t = true) ⟨eq_of_beq s t, fun h => h ▸ beq_refl s⟩

/-- The types whose values have no parts. -/
def isScalar : PolarsDType → Bool
  | .list _ => false
  | .array _ _ => false
  | .struct _ => false
  | _ => true

end PolarsDType

mutual

/-- `FenicDType::canonical_polars_type`. -/
def canonicalPolarsType : DataType → PolarsDType
  | .stringType => .string
  | .integerType => .int64
  | .floatType => .float32
  | .doubleType => .float64
  | .booleanType => .boolean
  | .dateType => .date
  | .timestampType => .datetime
  | .arrayType t => .list (canonicalPolarsType t)
  | .structType fs => .struct (canonicalFields fs)
  | .embeddingType d _ => .array .float32 d
  | .jsonType => .string
  | .markdownType => .string
  | .htmlType => .string
  | .transcriptType _ => .string
  | .documentPathType _ => .string

def canonicalFields : List (String × DataType) → List (String × PolarsDType)
  | [] => []
  | (name, t) :: fs => (name, canonicalPolarsType t) :: canonicalFields fs

end

/-! ## Values -/

/-- `serde_json::Number`. -/
inductive Number where
  | posInt (n : UInt64)
  | negInt (n : Int64)
  | float (x : Float)

def Number.asI64 : Number → Option Int64
  | .posInt n => if n.toNat < 2 ^ 63 then some (Int64.ofNat n.toNat) else none
  | .negInt n => some n
  | .float _ => none

def Number.asF64 : Number → Float
  | .posInt n => Float.ofNat n.toNat
  | .negInt n => Float.ofInt n.toInt
  | .float x => x

mutual

/-- `serde_json::Value`. The members of an object have different keys. -/
inductive Json where
  | null
  | bool (b : Bool)
  | number (n : Number)
  | string (text : Text)
  | array (items : List Json)
  | object (members : List (String × Json))

/-- A text: what `serde_json::to_string` prints for a document, or any other text. -/
inductive Text where
  | raw (s : String)
  | printed (document : Json)

end

/-- A cell of a column. -/
inductive Value where
  | null
  | text (t : Text)
  | int (i : Int64)
  | float32 (x : Float32)
  | float64 (x : Float)
  | boolean (b : Bool)
  | date (days : Int32)
  | timestamp (micros : Int64)
  | list (items : List Value)
  | struct (fields : List Value)

/-- How the chunks of date and timestamp columns are typed: by the integers they are stored as, or as dates. -/
inductive TemporalChunks where
  | physical
  | logical
  deriving DecidableEq

/-- What stays open about the libraries: which raw texts are JSON, and the scalar casts of the engine. A scalar
    cast is not strict: a value that does not convert becomes null. -/
class Engine where
  fromStr : String → Option Json
  temporalChunks : TemporalChunks
  supports : PolarsDType → PolarsDType → Bool
  convert : PolarsDType → PolarsDType → Value → Value
  /-- Scalars cast to each other, but for texts to truth values and between truth values and dates. -/
  supports_scalar : ∀ src dst : PolarsDType, src.isScalar = true → dst.isScalar = true →
    ¬ (src = .string ∧ dst = .boolean) → ¬ (src = .boolean ∧ (dst = .date ∨ dst = .datetime)) →
    ¬ ((src = .date ∨ src = .datetime) ∧ dst = .boolean) → supports src dst = true

variable [Engine]

/-- `serde_json::from_str`. -/
def fromStr : Text → Option Json
  | .raw s => Engine.fromStr s
  | .printed document => some document

/-- The logical types of plain text. -/
def isText : DataType → Bool
  | .stringType => true
  | .markdownType => true
  | .htmlType => true
  | .transcriptType _ => true
  | .documentPathType _ => true
  | _ => false

/-- A value of a logical type. Every value may be null, and the parts of a value too. -/
inductive Fits : DataType → Value → Prop where
  | null (t : DataType) : Fits t .null
  | text {t : DataType} (h : isText t = true) (text : Text) : Fits t (.text text)
  | json {text : Text} {document : Json} (h : fromStr text = some document) : Fits .jsonType (.text text)
  | int (i : Int64) : Fits .integerType (.int i)
  | float32 (x : Float32) : Fits .floatType (.float32 x)
  | float64 (x : Float) : Fits .doubleType (.float64 x)
  | boolean (b : Bool) : Fits .booleanType (.boolean b)
  | date (days : Int32) : Fits .dateType (.date days)
  | timestamp (micros : Int64) : Fits .timestampType (.timestamp micros)
  | list {t : DataType} {items : List Value} (h : ∀ v ∈ items, Fits t v) : Fits (.arrayType t) (.list items)
  | struct {fields : List (String × DataType)} {values : List Value}
      (h : List.Forall₂ (fun field v => Fits field.2 v) fields values) : Fits (.structType fields) (.struct values)
  | embedding {d : Nat} {m : String} {items : List Value} (hlength : items.length = d)
      (h : ∀ v ∈ items, Fits .floatType v) : Fits (.embeddingType d m) (.list items)

section Fits

variable {v : Value}

theorem fits_json (h : Fits .jsonType v) : v = .null ∨ ∃ text document, v = .text text ∧ fromStr text = some document := by
  cases h with
  | null => exact Or.inl rfl
  | text h => cases h
  | json h => exact Or.inr ⟨_, _, rfl, h⟩

theorem fits_float (h : Fits .floatType v) : v = .null ∨ ∃ x, v = .float32 x := by
  cases h with
  | null => exact Or.inl rfl
  | text h => cases h
  | float32 x => exact Or.inr ⟨x, rfl⟩

theorem fits_date (h : Fits .dateType v) : v = .null ∨ ∃ days, v = .date days := by
  cases h with
  | null => exact Or.inl rfl
  | text h => cases h
  | date days => exact Or.inr ⟨days, rfl⟩

theorem fits_timestamp (h : Fits .timestampType v) : v = .null ∨ ∃ micros, v = .timestamp micros := by
  cases h with
  | null => exact Or.inl rfl
  | text h => cases h
  | timestamp micros => exact Or.inr ⟨micros, rfl⟩

theorem fits_array {t : DataType} (h : Fits (.arrayType t) v) :
    v = .null ∨ ∃ items, v = .list items ∧ ∀ item ∈ items, Fits t item := by
  cases h with
  | null => exact Or.inl rfl
  | text h => cases h
  | list h => exact Or.inr ⟨_, rfl, h⟩

theorem fits_struct {fields : List (String × DataType)} (h : Fits (.structType fields) v) :
    v = .null ∨ ∃ values, v = .struct values ∧ List.Forall₂ (fun field v => Fits field.2 v) fields values := by
  cases h with
  | null => exact Or.inl rfl
  | text h => cases h
  | struct h => exact Or.inr ⟨_, rfl, h⟩

theorem fits_embedding {d : Nat} {m : String} (h : Fits (.embeddingType d m) v) :
    v = .null ∨ ∃ items, v = .list items ∧ ∀ item ∈ items, Fits .floatType item := by
  cases h with
  | null => exact Or.inl rfl
  | text h => cases h
  | embedding _ h => exact Or.inr ⟨_, rfl, h⟩

end Fits

/-! ## The engine -/

inductive CastError where
  | todo (message : String)
  /-- `unreachable!`, for a type it was reached with. -/
  | unreachable (message : String) (dtype : DataType)
  | polars (message : String)

/-- A polars `Series`. -/
structure Series where
  dtype : PolarsDType
  values : List Value

/-- A column of a logical type. -/
structure Column (t : DataType) where
  series : Series
  dtype_eq : series.dtype = canonicalPolarsType t
  fits : ∀ v ∈ series.values, Fits t v

/-- The value that a map made from the entries has for a key: the last one. -/
def mapGet {α : Type} (entries : List (String × α)) (name : String) : Option α :=
  match entries with
  | [] => none
  | (n, a) :: rest =>
    match mapGet rest name with
    | some b => some b
    | none => if n = name then some a else none

namespace Series

def len (s : Series) : Nat := s.values.length

/-- A float as a 32-bit float. -/
def toFloat32 : Value → Value
  | .float64 x => .float32 x.toFloat32
  | v => v

/-- `s.cast(dtype)`. Lists go to arrays only when each has the width of the array. -/
def cast (s : Series) (target : PolarsDType) : Except CastError Series :=
  match s.dtype, target with
  | .list _, .array .float32 width =>
    if s.values.all (fun v => match v with
        | .list items => items.length == width
        | _ => true) then
      .ok ⟨target, s.values.map (fun v => match v with
        | .list items => .list (items.map toFloat32)
        | v => v)⟩
    else .error (.polars "not all elements have the specified width")
  | .array .float32 _, .list .float32 => .ok ⟨target, s.values⟩
  | dtype, target =>
    if Engine.supports dtype target then .ok ⟨target, s.values.map (Engine.convert dtype target)⟩
    else .error (.polars "cast not supported")

/-- The value of the first field. -/
def firstField : Value → Value
  | .struct (v :: _) => v
  | _ => .null

/-- The struct without its first field. -/
def restFields : Value → Value
  | .struct (_ :: vs) => .struct vs
  | v => v

/-- `fields_as_series` of a struct column; a null struct has null fields. -/
def fieldsAsSeries : List (String × PolarsDType) → List Value → List (String × Series)
  | [], _ => []
  | (name, dtype) :: fields, values =>
    (name, ⟨dtype, values.map firstField⟩) :: fieldsAsSeries fields (values.map restFields)

/-- `StructChunked::from_series`; a field of one value is repeated. -/
def fromSeries (length : Nat) (fields : List (String × Series)) : Except CastError Series :=
  if fields.all (fun field => field.2.len == length || field.2.len == 1) then
    if (fields.map Prod.fst).Nodup then
      .ok ⟨.struct (fields.map (fun field => (field.1, field.2.dtype))), (List.range length).map (fun i =>
        .struct (fields.map (fun field =>
          field.2.values.getD (if field.2.len = 1 then 0 else i) .null)))⟩
    else .error (.polars "multiple fields with one name found")
  else .error (.polars "expected struct fields to have given length")

mutual

/-- Whether the structs that a null column is built of have no field name twice. -/
def nullable : PolarsDType → Bool
  | .struct fields => decide (fields.map Prod.fst).Nodup && nullableFields fields
  | _ => true

def nullableFields : List (String × PolarsDType) → Bool
  | [] => true
  | (_, dtype) :: fields => nullable dtype && nullableFields fields

end

/-- `Series::full_null`. -/
def fullNull (length : Nat) (dtype : PolarsDType) : Except CastError Series :=
  if nullable dtype then .ok ⟨dtype, List.replicate length .null⟩
  else .error (.polars "multiple fields with one name found")

/-- A list builder for an inner type, after the rows were appended. It refuses series of another type. -/
def buildList (inner : PolarsDType) (rows : List (Option Series)) : Except CastError Series :=
  if ∀ row ∈ rows, ∀ s ∈ row, s.dtype = inner then
    .ok ⟨.list inner, rows.map (fun row => match row with
      | some s => .list s.values
      | none => .null)⟩
  else .error (.polars "cannot append series to list builder")

end Series

end Dtypes

end Fenic
