/-!
# `Types.DataType` — the logical column types

`DataType` follows `core/types/datatypes.py`: seven primitive types, arrays and structs to any depth, and
the logical types whose values are stored as strings or fixed-size float arrays. Every `__eq__` of the
source is structural (struct fields compare in order), so `DecidableEq` *is* the source's `==`.

`Schema` is the ordered list of column fields of a frame (`core/types/schema.py`).
-/

namespace Fenic

/-- A fenic logical type. Struct fields keep their order and their names. -/
inductive DataType where
  | stringType
  | integerType
  | floatType
  | doubleType
  | booleanType
  | dateType
  | timestampType
  | arrayType (elementType : DataType)
  | structType (structFields : List (String × DataType))
  | embeddingType (dimensions : Nat) (embeddingModel : String)
  | markdownType
  | htmlType
  | jsonType
  | transcriptType (format : String)
  | documentPathType (format : String)
  deriving Repr, Inhabited

namespace DataType

/-! ## Structural equality

Written by hand: the deriving handlers do not reach through the list of struct fields. -/

mutual

/-- `DataType.__eq__`. -/
def beq : DataType → DataType → Bool
  | .stringType, .stringType => true
  | .integerType, .integerType => true
  | .floatType, .floatType => true
  | .doubleType, .doubleType => true
  | .booleanType, .booleanType => true
  | .dateType, .dateType => true
  | .timestampType, .timestampType => true
  | .markdownType, .markdownType => true
  | .htmlType, .htmlType => true
  | .jsonType, .jsonType => true
  | .arrayType s, .arrayType t => beq s t
  | .structType fs, .structType gs => beqFields fs gs
  | .embeddingType d m, .embeddingType d' m' => d == d' && m == m'
  | .transcriptType f, .transcriptType g => f == g
  | .documentPathType f, .documentPathType g => f == g
  | _, _ => false

/-- `StructField.__eq__` over two field lists. -/
def beqFields : List (String × DataType) → List (String × DataType) → Bool
  | [], [] => true
  | (n, s) :: fs, (m, t) :: gs => n == m && beq s t && beqFields fs gs
  | _, _ => false

end

mutual

theorem eq_of_beq : ∀ (s t : DataType), beq s t = true → s = t
  | .arrayType s, t, h => by
    cases t <;> simp only [beq, Bool.false_eq_true] at h
    rw [eq_of_beq s _ h]
  | .structType fs, t, h => by
    cases t <;> simp only [beq, Bool.false_eq_true] at h
    rw [eq_of_beqFields fs _ h]
  | .embeddingType _ _, t, h => by cases t <;> simp_all [beq]
  | .transcriptType _, t, h => by cases t <;> simp_all [beq]
  | .documentPathType _, t, h => by cases t <;> simp_all [beq]
  | .stringType, t, h => by cases t <;> first | rfl | cases h
  | .integerType, t, h => by cases t <;> first | rfl | cases h
  | .floatType, t, h => by cases t <;> first | rfl | cases h
  | .doubleType, t, h => by cases t <;> first | rfl | cases h
  | .booleanType, t, h => by cases t <;> first | rfl | cases h
  | .dateType, t, h => by cases t <;> first | rfl | cases h
  | .timestampType, t, h => by cases t <;> first | rfl | cases h
  | .markdownType, t, h => by cases t <;> first | rfl | cases h
  | .htmlType, t, h => by cases t <;> first | rfl | cases h
  | .jsonType, t, h => by cases t <;> first | rfl | cases h

theorem eq_of_beqFields : ∀ (fs gs : List (String × DataType)), beqFields fs gs = true → fs = gs
  | [], [], _ => rfl
  | [], _ :: _, h => by simp [beqFields] at h
  | _ :: _, [], h => by simp [beqFields] at h
  | (n, s) :: fs, (m, t) :: gs, h => by
    simp only [beqFields, Bool.and_eq_true, beq_iff_eq] at h
    rw [h.1.1, eq_of_beq s t h.1.2, eq_of_beqFields fs gs h.2]

end

mutual

theorem beq_refl : ∀ t : DataType, beq t t = true
  | .arrayType t => beq_refl t
  | .structType fs => beqFields_refl fs
  | .embeddingType _ _ => by simp [beq]
  | .transcriptType _ => by simp [beq]
  | .documentPathType _ => by simp [beq]
  | .stringType => rfl
  | .integerType => rfl
  | .floatType => rfl
  | .doubleType => rfl
  | .booleanType => rfl
  | .dateType => rfl
  | .timestampType => rfl
  | .markdownType => rfl
  | .htmlType => rfl
  | .jsonType => rfl

theorem beqFields_refl : ∀ fs : List (String × DataType), beqFields fs fs = true
  | [] => rfl
  | (n, t) :: fs => by simp [beqFields, beq_refl t, beqFields_refl fs]

end

instance : DecidableEq DataType := fun s t =>
  decidable_of_iff (beq s t = true) ⟨eq_of_beq s t, fun h => h ▸ beq_refl s⟩

mutual

/-- `DataType.__str__`. -/
def toString : DataType → String
  | .stringType => "StringType"
  | .integerType => "IntegerType"
  | .floatType => "FloatType"
  | .doubleType => "DoubleType"
  | .booleanType => "BooleanType"
  | .dateType => "DateType"
  | .timestampType => "TimestampType"
  | .arrayType t => "ArrayType(element_type=" ++ toString t ++ ")"
  | .structType fs => "StructType(struct_fields=[" ++ ", ".intercalate (fieldStrings fs) ++ "])"
  | .embeddingType d m => s!"EmbeddingType(dimensions={d}, model={m})"
  | .markdownType => "MarkdownType"
  | .htmlType => "HtmlType"
  | .jsonType => "JsonType"
  | .transcriptType f => s!"TranscriptType(format='{f}')"
  | .documentPathType f => s!"DocumentPathType(format='{f}')"

/-- `StructField.__str__` of each field. -/
def fieldStrings : List (String × DataType) → List String
  | [] => []
  | (n, t) :: fs => ("StructField(name=" ++ n ++ ", data_type=" ++ toString t ++ ")") :: fieldStrings fs

end

instance : ToString DataType := ⟨toString⟩

/-- `isinstance(t, _PrimitiveType)`. -/
def isPrimitive : DataType → Bool
  | .stringType => true
  | .integerType => true
  | .floatType => true
  | .doubleType => true
  | .booleanType => true
  | .dateType => true
  | .timestampType => true
  | _ => false

end DataType

/-! ## Schemas -/

/-- A typed column of a frame. -/
structure ColumnField where
  name : String
  dataType : DataType
  deriving DecidableEq, Repr

/-- The ordered column fields of a frame. -/
abbrev Schema := List ColumnField

/-- `Schema.column_names`. -/
def Schema.columnNames (s : Schema) : List String := s.map ColumnField.name

end Fenic
