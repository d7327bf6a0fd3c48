import Fenic.Lib.Except
import Fenic.Types.DataType
import Mathlib.Algebra.Order.BigOperators.Group.List
import Mathlib.Algebra.Order.Group.Nat

/-!
# `ResponseFormat.Conformance` — response models that keep to their struct type

A pydantic model is here the list of its fields, each with its annotation. `validateOutputFormat` says which models an operator
takes, `convertPydanticTypeToCustomStructType` gives the type of the column: two recursions over the same annotations, one in
`structured_outputs.py` and one in `schema.py`.

`IsDump` says what `model_dump` returns for the instances of a model, and `fenicType` which type an annotation stands for.

The check takes lists and optionals in any order, and literals of any values. The conversion looks through one optional and one
list, and makes every literal a string. `RegularFields` are the fields on which both agree, and `conforms_iff` says that these
are all: a model that was taken is converted, with instances of the type, exactly when its fields are regular.
-/

namespace Fenic

namespace ResponseFormat

/-! ## Annotations -/

/-- A value of a literal type. -/
inductive LiteralValue where
  | none
  | bool (b : Bool)
  | int (n : Int)
  | str (s : String)
  /-- Bytes, or a member of an enumeration. -/
  | other (repr : String)
  deriving DecidableEq

/-- The values in what `model_dump` returns. A float stands as it is written. -/
inductive PyObject where
  | none
  | bool (b : Bool)
  | int (n : Int)
  | float (literal : String)
  | str (s : String)
  | list (items : List PyObject)
  | dict (entries : List (String × PyObject))
  | other (repr : String)

def LiteralValue.dumped : LiteralValue → PyObject
  | .none => .none
  | .bool b => .bool b
  | .int n => .int n
  | .str s => .str s
  | .other repr => .other repr

/-- What pydantic keeps of a field besides its annotation. A default is not validated; it stands as it is dumped. -/
structure FieldInfo where
  name : String
  description : Option String
  default : Option PyObject
  exclude : Bool

/-- An annotation. The name is that of the type, `list` or `List`. A model allows extra fields or not. -/
inductive Annotation where
  | bool
  | int
  | float
  | str
  | date
  | datetime
  | list (name : String) (element : Annotation)
  /-- `typing.List`, without an element type. -/
  | bareList
  /-- A union of a type and `None`. -/
  | optional (inner : Annotation)
  /-- Any other union. -/
  | union
  | literal (value : LiteralValue) (values : List LiteralValue)
  | model (extra : Bool) (fields : List (FieldInfo × Annotation))
  | other (repr name : String)

/-! ## The check -/

/-- The error at the end of `_validate_semantic_field_type`. -/
def unsupportedDataType (fieldName annotationType : String) : String :=
  s!"Unsupported data type in semantic schema field '{fieldName}': {annotationType}. Supported types are: str, int, float, bool, List[T], Optional[T], Literal, and nested Pydantic models."

mutual

/-- `_validate_semantic_field_type`. -/
def validateSemanticFieldType (fieldName : String) : Annotation → Except String Unit
  | .bool => .ok ()
  | .int => .ok ()
  | .float => .ok ()
  | .str => .ok ()
  | .model _ [] => .error "Output schema cannot be empty. Please specify at least one output field."
  | .model _ (field :: fields) => validateFields (field :: fields)
  | .bareList => .error s!"List type in field {fieldName} must specify element type"
  | .list _ element => validateSemanticFieldType fieldName element
  | .optional inner => validateSemanticFieldType fieldName inner
  | .union => .error s!"Union types are not supported in field {fieldName}. Only Optional[T] is allowed."
  | .literal _ _ => .ok ()
  | .date => .error (unsupportedDataType fieldName "<class 'datetime.date'>")
  | .datetime => .error (unsupportedDataType fieldName "<class 'datetime.datetime'>")
  | .other repr _ => .error (unsupportedDataType fieldName repr)

/-- The loop of `validate_output_format`. -/
def validateFields : List (FieldInfo × Annotation) → Except String Unit
  | [] => .ok ()
  | (field, annotationType) :: fields => do
    if field.description = none then
      throw s!"Extract schema field {field.name} has no description. Please specify a description for each field."
    validateSemanticFieldType field.name annotationType
    validateFields fields

end

/-- `validate_output_format`. -/
def validateOutputFormat (fields : List (FieldInfo × Annotation)) : Except String Unit :=
  match fields with
  | [] => .error "Output schema cannot be empty. Please specify at least one output field."
  | field :: fields => validateFields (field :: fields)

/-! ## The conversion -/

/-- `py_type.__name__`. -/
def Annotation.pyName : Annotation → String
  | .bool => "bool"
  | .int => "int"
  | .float => "float"
  | .str => "str"
  | .date => "date"
  | .datetime => "datetime"
  | .list name _ => name
  | .bareList => "List"
  | .optional _ => "Optional"
  | .union => "Union"
  | .literal _ _ => "Literal"
  | .model _ _ => "BaseModel"
  | .other _ name => name

/-- `_convert_pytype_to_custom_dtype`. -/
def convertPytypeToCustomDtype : Annotation → Except String DataType
  | .str => .ok .stringType
  | .int => .ok .integerType
  | .float => .ok .doubleType
  | .bool => .ok .booleanType
  | .date => .ok .dateType
  | .datetime => .ok .timestampType
  | .literal _ _ => .ok .stringType
  | annotationType => .error s!"Unsupported Python type: {annotationType.pyName}"

mutual

/-- The type of a field without its optional. A union is an error of `_unwrap_optional_type`. -/
def convertActualType : Annotation → Except String DataType
  | .union => .error "Union types are not supported. Only Optional[T] is allowed."
  | .list _ (.model _ fields) => (convertFields fields).map fun structFields => .arrayType (.structType structFields)
  | .list _ element => (convertPytypeToCustomDtype element).map .arrayType
  | .bareList => .error "tuple index out of range"
  | .model _ fields => (convertFields fields).map .structType
  | annotationType => convertPytypeToCustomDtype annotationType

/-- The loop of `convert_pydantic_type_to_custom_struct_type`. -/
def convertFields : List (FieldInfo × Annotation) → Except String (List (String × DataType))
  | [] => .ok []
  | (field, annotationType) :: fields => do
    let dataType ← match annotationType with
      | .optional inner => convertActualType inner
      | annotationType => convertActualType annotationType
    let structFields ← convertFields fields
    return (field.name, dataType) :: structFields

end

/-- The type of a field. -/
def convertFieldType : Annotation → Except String DataType
  | .optional inner => convertActualType inner
  | annotationType => convertActualType annotationType

theorem convertFields_cons (field : FieldInfo) (annotationType : Annotation) (fields : List (FieldInfo × Annotation)) :
    convertFields ((field, annotationType) :: fields) =
      (do
        let dataType ← convertFieldType annotationType
        let structFields ← convertFields fields
        return (field.name, dataType) :: structFields) := by
  cases annotationType <;> rfl

/-- `convert_pydantic_type_to_custom_struct_type`. -/
def convertPydanticTypeToCustomStructType (fields : List (FieldInfo × Annotation)) : Except String DataType :=
  (convertFields fields).map .structType

/-! ## Instances -/

mutual

/-- What `model_dump` returns for a value that pydantic takes for the annotation. -/
def IsDump : Annotation → PyObject → Prop
  | .bool, value => ∃ b, value = .bool b
  | .int, value => ∃ n, value = .int n
  | .float, value => ∃ literal, value = .float literal
  | .str, value => ∃ s, value = .str s
  | .list _ element, value => ∃ items, value = .list items ∧ ∀ item ∈ items, IsDump element item
  | .bareList, value => ∃ items, value = .list items
  | .optional inner, value => value = .none ∨ IsDump inner value
  | .literal first rest, value => ∃ l ∈ first :: rest, value = l.dumped
  | .model extra fields, value =>
    ∃ entries extras, value = .dict (entries ++ extras) ∧ AreDumps fields entries ∧
      (extra = false → extras = []) ∧ ∀ entry ∈ extras, ∀ field ∈ fields, entry.1 ≠ field.1.name
  | .date, value => ∃ repr, value = .other repr
  | .datetime, value => ∃ repr, value = .other repr
  | .union, _ => True
  | .other _ _, _ => True

/-- The entries of the fields, in their order. A field that is left out has none. -/
def AreDumps : List (FieldInfo × Annotation) → List (String × PyObject) → Prop
  | [], entries => entries = []
  | (field, annotationType) :: fields, entries =>
    if field.exclude then AreDumps fields entries
    else ∃ value rest, entries = (field.name, value) :: rest ∧ (IsDump annotationType value ∨ field.default = some value) ∧
      AreDumps fields rest

end

/-! ## Types -/

mutual

/-- The value is of the type: the same fields in order at every level, and each value null or of its type. -/
def HasType : DataType → PyObject → Prop
  | .booleanType, value => ∃ b, value = .bool b
  | .integerType, value => ∃ n, value = .int n
  | .doubleType, value => ∃ literal, value = .float literal
  | .stringType, value => ∃ s, value = .str s
  | .arrayType elementType, value => ∃ items, value = .list items ∧ ∀ item ∈ items, item = .none ∨ HasType elementType item
  | .structType structFields, value => ∃ entries, value = .dict entries ∧ FieldsHaveType structFields entries
  | _, _ => False

def FieldsHaveType : List (String × DataType) → List (String × PyObject) → Prop
  | [], entries => entries = []
  | (name, dataType) :: structFields, entries =>
    ∃ value rest, entries = (name, value) :: rest ∧ (value = .none ∨ HasType dataType value) ∧
      FieldsHaveType structFields rest

end

mutual

/-- The type that an annotation stands for. -/
def fenicType : Annotation → DataType
  | .bool => .booleanType
  | .int => .integerType
  | .float => .doubleType
  | .str => .stringType
  | .date => .dateType
  | .datetime => .timestampType
  | .list _ element => .arrayType (fenicType element)
  | .optional inner => fenicType inner
  | .model _ fields => .structType (fenicFields fields)
  | _ => .stringType

def fenicFields : List (FieldInfo × Annotation) → List (String × DataType)
  | [] => []
  | (field, annotationType) :: fields => (field.name, fenicType annotationType) :: fenicFields fields

end

/-! ## Response models that keep to their struct type -/

/-! ## Regular fields -/

/-- Where an annotation stands: at a field, inside an optional, or inside a list. -/
inductive Place where
  | field
  | actual
  | element

mutual

/-- One optional at most, around one list at most, around a literal of strings, a regular model or a basic type. -/
def Regular : Place → Annotation → Prop
  | .field, .optional inner => Regular .actual inner
  | .field, .list _ element => Regular .element element
  | .actual, .list _ element => Regular .element element
  | _, .bool => True
  | _, .int => True
  | _, .float => True
  | _, .str => True
  | _, .literal first rest => ∀ l ∈ first :: rest, l = .none ∨ ∃ s, l = .str s
  | _, .model extra fields => extra = false ∧ RegularFields fields
  | _, _ => False

/-- No field is left out, and a default is null or of the type of its field. -/
def RegularFields : List (FieldInfo × Annotation) → Prop
  | [] => True
  | (field, annotationType) :: fields =>
    field.exclude = false ∧ (∀ value, field.default = some value → value = .none ∨ HasType (fenicType annotationType) value) ∧
      Regular .field annotationType ∧ RegularFields fields

end

/-! ## Conversion -/

/-- The conversion at a place. -/
def convertAt : Place → Annotation → Except String DataType
  | .field, annotationType => convertFieldType annotationType
  | .actual, annotationType => convertActualType annotationType
  | .element, .model _ fields => (convertFields fields).map .structType
  | .element, annotationType => convertPytypeToCustomDtype annotationType

theorem convertActualType_list (name : String) (element : Annotation) :
    convertActualType (.list name element) = (convertAt .element element).map .arrayType := by
  cases element with
  | model extra fields =>
    rw [convertActualType, convertAt]
    cases convertFields fields <;> rfl
  | _ => rfl

theorem convertAt_model (place : Place) (extra : Bool) (fields : List (FieldInfo × Annotation)) :
    convertAt place (.model extra fields) = (convertFields fields).map .structType := by
  cases place <;> rfl

variable {fields : List (FieldInfo × Annotation)} {structFields : List (String × DataType)}

theorem convertFields_cons_eq_ok {field : FieldInfo} {annotationType : Annotation}
    :
    convertFields ((field, annotationType) :: fields) = .ok structFields ↔
      ∃ dataType rest, convertAt .field annotationType = .ok dataType ∧ convertFields fields = .ok rest ∧
        structFields = (field.name, dataType) :: rest := by
  rw [convertFields_cons, Except.bind_eq_ok]
  constructor
  · rintro ⟨dataType, hdataType, h⟩
    obtain ⟨rest, hrest, h⟩ := Except.bind_eq_ok.mp h
    cases h
    exact ⟨dataType, rest, hdataType, hrest, rfl⟩
  · rintro ⟨dataType, rest, hdataType, hrest, rfl⟩
    exact ⟨dataType, hdataType, Except.bind_eq_ok.mpr ⟨rest, hrest, rfl⟩⟩

mutual

/-- **A regular annotation is converted to the type that it stands for.** -/
theorem convertAt_regular : ∀ (annotationType : Annotation) (place : Place), Regular place annotationType →
    convertAt place annotationType = .ok (fenicType annotationType)
  | .optional inner, .field, h => convertAt_regular inner .actual h
  | .list name element, .field, h => by
    show convertActualType (.list name element) = _
    rw [convertActualType_list, convertAt_regular element .element h]
    rfl
  | .list name element, .actual, h => by
    show convertActualType (.list name element) = _
    rw [convertActualType_list, convertAt_regular element .element h]
    rfl
  | .model extra fields, place, h => by
    have hfields : RegularFields fields := by cases place <;> exact h.2
    rw [convertAt_model, convertFields_regular fields hfields]
    rfl
  | .bool, place, _ => by cases place <;> rfl
  | .int, place, _ => by cases place <;> rfl
  | .float, place, _ => by cases place <;> rfl
  | .str, place, _ => by cases place <;> rfl
  | .literal _ _, place, _ => by cases place <;> rfl

theorem convertFields_regular : ∀ fields : List (FieldInfo × Annotation), RegularFields fields →
    convertFields fields = .ok (fenicFields fields)
  | [], _ => rfl
  | (_, annotationType) :: fields, h =>
    convertFields_cons_eq_ok.mpr
      ⟨_, _, convertAt_regular annotationType .field h.2.2.1, convertFields_regular fields h.2.2.2, rfl⟩

end

/-! ## Instances of regular models -/

mutual

/-- **What a regular annotation is dumped as is null or of its type.** -/
theorem hasType_of_regular : ∀ (annotationType : Annotation) (place : Place) (value : PyObject), Regular place annotationType →
    IsDump annotationType value → value = .none ∨ HasType (fenicType annotationType) value
  | .optional inner, .field, value, h, hdump => by
    rcases hdump with hnone | hdump
    · exact .inl hnone
    · exact hasType_of_regular inner .actual value h hdump
  | .list name element, .field, value, h, hdump => by
    obtain ⟨items, rfl, hitems⟩ := hdump
    exact .inr ⟨items, rfl, fun item hitem => hasType_of_regular element .element item h (hitems item hitem)⟩
  | .list name element, .actual, value, h, hdump => by
    obtain ⟨items, rfl, hitems⟩ := hdump
    exact .inr ⟨items, rfl, fun item hitem => hasType_of_regular element .element item h (hitems item hitem)⟩
  | .model extra fields, place, value, h, hdump => by
    have hregular : extra = false ∧ RegularFields fields := by cases place <;> exact h
    obtain ⟨entries, extras, rfl, hentries, hextras, -⟩ := hdump
    rw [hextras hregular.1, List.append_nil]
    exact .inr ⟨entries, rfl, fieldsHaveType_of_regular fields entries hregular.2 hentries⟩
  | .bool, _, _, _, hdump => .inr hdump
  | .int, _, _, _, hdump => .inr hdump
  | .float, _, _, _, hdump => .inr hdump
  | .str, _, _, _, hdump => .inr hdump
  | .literal first rest, place, value, h, hdump => by
    have hstrings : ∀ l ∈ first :: rest, l = .none ∨ ∃ s, l = .str s := by cases place <;> exact h
    obtain ⟨l, hl, rfl⟩ := hdump
    rcases hstrings l hl with rfl | ⟨s, rfl⟩
    · exact .inl rfl
    · exact .inr ⟨s, rfl⟩

theorem fieldsHaveType_of_regular : ∀ (fields : List (FieldInfo × Annotation)) (entries : List (String × PyObject)),
    RegularFields fields → AreDumps fields entries → FieldsHaveType (fenicFields fields) entries
  | [], _, _, hentries => hentries
  | (field, annotationType) :: fields, entries, h, hentries => by
    obtain ⟨hexclude, hdefault, htype, hfields⟩ := h
    unfold AreDumps at hentries
    rw [hexclude, if_neg Bool.false_ne_true] at hentries
    obtain ⟨value, rest, rfl, hvalue, hrest⟩ := hentries
    refine ⟨value, rest, rfl, ?_, fieldsHaveType_of_regular fields rest hfields hrest⟩
    rcases hvalue with hdump | hdefault'
    · exact hasType_of_regular annotationType .field value htype hdump
    · exact hdefault value hdefault'

end

/-! ## Accepted models have instances -/

theorem validateFields_cons_eq_ok {field : FieldInfo} {annotationType : Annotation} :
    validateFields ((field, annotationType) :: fields) = .ok () ↔
      field.description ≠ none ∧ validateSemanticFieldType field.name annotationType = .ok () ∧ validateFields fields = .ok () := by
  rw [validateFields]
  by_cases hdescription : field.description = none
  · rw [if_pos hdescription]
    constructor
    · intro h
      cases h
    · intro h
      exact absurd hdescription h.1
  · rw [if_neg hdescription, and_iff_right hdescription]
    constructor
    · intro h
      obtain ⟨⟨⟩, htype, hfields⟩ := Except.bind_eq_ok.mp h
      exact ⟨htype, hfields⟩
    · rintro ⟨htype, hfields⟩
      exact Except.bind_eq_ok.mpr ⟨(), htype, hfields⟩

mutual

theorem exists_dump : ∀ (annotationType : Annotation) (fieldName : String),
    validateSemanticFieldType fieldName annotationType = .ok () → ∃ value, IsDump annotationType value
  | .bool, _, _ => ⟨.bool false, false, rfl⟩
  | .int, _, _ => ⟨.int 0, 0, rfl⟩
  | .float, _, _ => ⟨.float "0.0", "0.0", rfl⟩
  | .str, _, _ => ⟨.str "", "", rfl⟩
  | .list _ _, _, _ => ⟨.list [], [], rfl, fun _ hitem => nomatch hitem⟩
  | .optional _, _, _ => ⟨.none, .inl rfl⟩
  | .literal first _, _, _ => ⟨first.dumped, first, List.mem_cons_self, rfl⟩
  | .model _ (field :: fields), _, h => by
    obtain ⟨entries, hentries⟩ := exists_dumps (field :: fields) h
    exact ⟨.dict (entries ++ []), entries, [], rfl, hentries, fun _ => rfl, fun _ hentry => nomatch hentry⟩

theorem exists_dumps : ∀ fields : List (FieldInfo × Annotation), validateFields fields = .ok () →
    ∃ entries, AreDumps fields entries
  | [], _ => ⟨[], rfl⟩
  | (field, annotationType) :: fields, h => by
    obtain ⟨-, htype, hfields⟩ := validateFields_cons_eq_ok.mp h
    obtain ⟨value, hvalue⟩ := exists_dump annotationType field.name htype
    obtain ⟨entries, hentries⟩ := exists_dumps fields hfields
    by_cases hexclude : field.exclude = true
    · refine ⟨entries, ?_⟩
      unfold AreDumps
      rw [if_pos hexclude]
      exact hentries
    · refine ⟨(field.name, value) :: entries, ?_⟩
      unfold AreDumps
      rw [if_neg hexclude]
      exact ⟨value, entries, rfl, .inl hvalue, hentries⟩

end

theorem length_of_fieldsHaveType {entries : List (String × PyObject)}
    (h : FieldsHaveType structFields entries) : entries.length = structFields.length := by
  induction structFields generalizing entries with
  | nil =>
    cases h
    rfl
  | cons structField structFields ih =>
    obtain ⟨value, rest, rfl, -, hrest⟩ := h
    rw [List.length_cons, List.length_cons, ih hrest]

theorem length_of_areDumps {entries : List (String × PyObject)}
    (h : AreDumps fields entries) : entries.length ≤ fields.length := by
  induction fields generalizing entries with
  | nil =>
    cases h
    exact Nat.le_refl 0
  | cons entry fields ih =>
    unfold AreDumps at h
    split at h
    · exact Nat.le_succ_of_le (ih h)
    · obtain ⟨value, rest, rfl, -, hrest⟩ := h
      exact Nat.succ_le_succ (ih hrest)

theorem length_of_convertFields
    (h : convertFields fields = .ok structFields) : structFields.length = fields.length := by
  induction fields generalizing structFields with
  | nil =>
    cases h
    rfl
  | cons entry fields ih =>
    obtain ⟨dataType, rest, -, hrest, rfl⟩ := convertFields_cons_eq_ok.mp h
    rw [List.length_cons, List.length_cons, ih hrest]

/-- A name that no field has. -/
theorem exists_fresh (fields : List (FieldInfo × Annotation)) : ∃ key, ∀ field ∈ fields, key ≠ field.1.name := by
  refine ⟨String.ofList (List.replicate ((fields.map fun field => field.1.name.length).sum + 1) '_'), ?_⟩
  intro field hfield heq
  have hle := List.single_le_sum (fun _ _ => Nat.zero_le _) _ (List.mem_map_of_mem (f := fun field => field.1.name.length) hfield)
  have hlength := congrArg String.length heq
  rw [String.length_ofList, List.length_replicate] at hlength
  omega

/-! ## Models that keep to their type are regular -/

/-- What the annotation is dumped as is null or of the type. -/
def Sound (dataType : DataType) (annotationType : Annotation) : Prop :=
  ∀ value, IsDump annotationType value → value = .none ∨ HasType dataType value

/-- A model allows no extra fields, and its own are of their types. -/
theorem Sound.model {extra : Bool}
    (h : Sound (.structType structFields) (.model extra fields)) (hfields : validateFields fields = .ok ()) :
    extra = false ∧ ∀ entries, AreDumps fields entries → FieldsHaveType structFields entries := by
  have hdict : ∀ entries, IsDump (.model extra fields) (.dict entries) → FieldsHaveType structFields entries := by
    intro entries hdump
    rcases h _ hdump with hnone | ⟨entries', heq, hhas⟩
    · cases hnone
    · cases heq
      exact hhas
  have hown : ∀ entries, AreDumps fields entries → FieldsHaveType structFields entries := by
    intro entries hentries
    rw [← List.append_nil entries]
    exact hdict _ ⟨entries, [], rfl, hentries, fun _ => rfl, fun _ hentry => nomatch hentry⟩
  refine ⟨?_, hown⟩
  -- an extra field makes the dump longer than the type
  cases extra with
  | false => rfl
  | true =>
    obtain ⟨entries, hentries⟩ := exists_dumps fields hfields
    obtain ⟨key, hkey⟩ := exists_fresh fields
    have hextra := hdict (entries ++ [(key, .none)])
      ⟨entries, [(key, .none)], rfl, hentries, (fun htrue => nomatch htrue), fun entry hentry =>
        List.mem_singleton.mp hentry ▸ hkey⟩
    have hlength := length_of_fieldsHaveType (hown entries hentries)
    have hlength' := length_of_fieldsHaveType hextra
    rw [List.length_append, List.length_singleton] at hlength'
    omega

theorem Sound.element {name : String} {element : Annotation} {elementType : DataType}
    (h : Sound (.arrayType elementType) (.list name element)) : Sound elementType element := by
  intro value hdump
  have hlist : IsDump (.list name element) (.list [value]) :=
    ⟨[value], rfl, fun item hitem => List.mem_singleton.mp hitem ▸ hdump⟩
  rcases h _ hlist with hnone | ⟨items, heq, hitems⟩
  · cases hnone
  · cases heq
    exact hitems value List.mem_cons_self

mutual

/-- An accepted annotation that is converted, to a type of all that it is dumped as, is regular. -/
theorem regular_of_sound : ∀ (annotationType : Annotation) (place : Place) (fieldName : String) (dataType : DataType),
    validateSemanticFieldType fieldName annotationType = .ok () → convertAt place annotationType = .ok dataType →
      Sound dataType annotationType → Regular place annotationType
  | .bool, place, _, _, _, _, _ => by cases place <;> trivial
  | .int, place, _, _, _, _, _ => by cases place <;> trivial
  | .float, place, _, _, _, _, _ => by cases place <;> trivial
  | .str, place, _, _, _, _, _ => by cases place <;> trivial
  | .literal first rest, place, _, dataType, _, hconvert, hsound => by
    have hstring : dataType = .stringType := by cases place <;> exact (Except.ok.inj hconvert).symm
    have hregular : ∀ l ∈ first :: rest, l = .none ∨ ∃ s, l = .str s := by
      intro l hl
      have hvalue := hsound l.dumped ⟨l, hl, rfl⟩
      rw [hstring] at hvalue
      rcases hvalue with hnone | ⟨s, hs⟩
      · cases l <;> first | exact .inl rfl | cases hnone
      · cases l <;> first | exact .inr ⟨_, rfl⟩ | cases hs
    cases place <;> exact hregular
  | .optional inner, .field, fieldName, dataType, haccepted, hconvert, hsound =>
    regular_of_sound inner .actual fieldName dataType haccepted hconvert fun value hdump => hsound value (.inr hdump)
  | .list name element, .field, fieldName, dataType, haccepted, hconvert, hsound => by
    obtain ⟨elementType, helement, rfl⟩ := Except.map_eq_ok.mp ((convertActualType_list name element).symm.trans hconvert)
    exact regular_of_sound element .element fieldName elementType haccepted helement hsound.element
  | .list name element, .actual, fieldName, dataType, haccepted, hconvert, hsound => by
    obtain ⟨elementType, helement, rfl⟩ := Except.map_eq_ok.mp ((convertActualType_list name element).symm.trans hconvert)
    exact regular_of_sound element .element fieldName elementType haccepted helement hsound.element
  | .model extra (field :: fields), place, _, dataType, haccepted, hconvert, hsound => by
    rw [convertAt_model] at hconvert
    obtain ⟨structFields, hfields, rfl⟩ := Except.map_eq_ok.mp hconvert
    obtain ⟨hextra, hown⟩ := hsound.model haccepted
    have hregular : extra = false ∧ RegularFields (field :: fields) :=
      ⟨hextra, regularFields_of_sound (field :: fields) structFields haccepted hfields hown⟩
    cases place <;> exact hregular

theorem regularFields_of_sound : ∀ (fields : List (FieldInfo × Annotation)) (structFields : List (String × DataType)),
    validateFields fields = .ok () → convertFields fields = .ok structFields →
      (∀ entries, AreDumps fields entries → FieldsHaveType structFields entries) → RegularFields fields
  | [], _, _, _, _ => trivial
  | (field, annotationType) :: fields, structFields, haccepted, hconvert, hown => by
    obtain ⟨-, htype, hfields⟩ := validateFields_cons_eq_ok.mp haccepted
    obtain ⟨dataType, rest, hdataType, hrest, rfl⟩ := convertFields_cons_eq_ok.mp hconvert
    obtain ⟨value, hvalue⟩ := exists_dump annotationType field.name htype
    obtain ⟨entries, hentries⟩ := exists_dumps fields hfields
    have hexclude : field.exclude = false := by
      apply Bool.eq_false_iff.mpr
      intro htrue
      -- the field is in the type, but not in the dump
      have hdump : AreDumps ((field, annotationType) :: fields) entries := by
        unfold AreDumps
        rw [if_pos htrue]
        exact hentries
      have hlength := length_of_fieldsHaveType (hown entries hdump)
      have hlength' := length_of_areDumps hentries
      have hlength'' := length_of_convertFields hrest
      rw [List.length_cons] at hlength
      omega
    have hcons : ∀ value rest', IsDump annotationType value ∨ field.default = some value → AreDumps fields rest' →
        (value = .none ∨ HasType dataType value) ∧ FieldsHaveType rest rest' := by
      intro value rest' hvalue hrest'
      have hdump : AreDumps ((field, annotationType) :: fields) ((field.name, value) :: rest') := by
        unfold AreDumps
        rw [hexclude, if_neg Bool.false_ne_true]
        exact ⟨value, rest', rfl, hvalue, hrest'⟩
      obtain ⟨value', rest'', heq, hhas, hhas'⟩ := hown _ hdump
      cases heq
      exact ⟨hhas, hhas'⟩
    have hregular := regular_of_sound annotationType .field field.name dataType htype hdataType
      fun value hdump => (hcons value entries (.inl hdump) hentries).1
    have htype : dataType = fenicType annotationType :=
      Except.ok.inj (hdataType.symm.trans (convertAt_regular annotationType .field hregular))
    refine ⟨hexclude, ?_, hregular, ?_⟩
    · intro value hdefault
      rw [← htype]
      exact (hcons value entries (.inr hdefault) hentries).1
    · exact regularFields_of_sound fields rest hfields hrest fun rest' hrest' => (hcons value rest' (.inl hvalue) hrest').2

end

/-- The model is converted, and its instances are of the struct type. -/
def Conforms (extra : Bool) (fields : List (FieldInfo × Annotation)) : Prop :=
  ∃ structType, convertPydanticTypeToCustomStructType fields = .ok structType ∧
    ∀ value, IsDump (.model extra fields) value → HasType structType value

/-- **An accepted model keeps to its struct type exactly when its fields are regular.** -/
theorem conforms_iff {extra : Bool} {fields : List (FieldInfo × Annotation)} (haccepted : validateOutputFormat fields = .ok ()) :
    Conforms extra fields ↔ extra = false ∧ RegularFields fields := by
  have hfields : validateFields fields = .ok () := by
    cases fields with
    | nil => cases haccepted
    | cons field fields => exact haccepted
  constructor
  · rintro ⟨structType, hconvert, hvalues⟩
    obtain ⟨structFields, hstruct, rfl⟩ := Except.map_eq_ok.mp hconvert
    have hsound : Sound (.structType structFields) (.model extra fields) := fun value hdump => .inr (hvalues value hdump)
    obtain ⟨hextra, hown⟩ := hsound.model hfields
    exact ⟨hextra, regularFields_of_sound fields structFields hfields hstruct hown⟩
  · rintro ⟨hextra, hregular⟩
    refine ⟨.structType (fenicFields fields), ?_, ?_⟩
    · rw [convertPydanticTypeToCustomStructType, convertFields_regular fields hregular]
      rfl
    · rintro value ⟨entries, extras, rfl, hentries, hextras, -⟩
      rw [hextras hextra, List.append_nil]
      exact ⟨entries, rfl, fieldsHaveType_of_regular fields entries hregular hentries⟩

/-- A field with a description, no default, that is not left out. -/
def describedField (name : String) : FieldInfo := ⟨name, some "described", none, false⟩

/-- `name: str`, `tags: Optional[List[Literal["a", "b"]]]`, and a list of models with a number. -/
def articleFields : List (FieldInfo × Annotation) :=
  [(describedField "name", .str),
    (describedField "tags", .optional (.list "List" (.literal (.str "a") [.str "b"]))),
    (describedField "ratings", .list "List" (.model false [(describedField "stars", .optional .int)]))]

theorem articleFields_conforms : Conforms false articleFields := by
  have haccepted : validateOutputFormat articleFields = .ok () := rfl
  apply (conforms_iff haccepted).mpr
  refine ⟨rfl, rfl, (fun _ h => nomatch h), trivial, rfl, (fun _ h => nomatch h), ?_, rfl, (fun _ h => nomatch h),
    ⟨rfl, rfl, (fun _ h => nomatch h), trivial, trivial⟩, trivial⟩
  intro l hl
  rcases List.mem_pair.mp hl with rfl | rfl
  · exact .inr ⟨_, rfl⟩
  · exact .inr ⟨_, rfl⟩

/-- A list of optional strings is accepted and not converted; a literal of numbers is converted to a string. -/
theorem optionalTags_literalStars_not_conform :
    (validateOutputFormat [(describedField "tags", .list "List" (.optional .str))] = .ok () ∧
      ¬ Conforms false [(describedField "tags", .list "List" (.optional .str))]) ∧
    (validateOutputFormat [(describedField "stars", .literal (.int 1) [.int 2])] = .ok () ∧
      ¬ Conforms false [(describedField "stars", .literal (.int 1) [.int 2])]) := by
  refine ⟨⟨rfl, ?_⟩, ⟨rfl, ?_⟩⟩
  · rintro ⟨_, hconvert, -⟩
    cases hconvert
  · rintro ⟨structType, hconvert, hvalues⟩
    cases hconvert
    have hdump : IsDump (.model false [(describedField "stars", .literal (.int 1) [.int 2])]) (.dict [("stars", .int 1)]) :=
      ⟨[("stars", .int 1)], [], rfl, ⟨.int 1, [], rfl, .inl ⟨.int 1, List.mem_cons_self, rfl⟩, rfl⟩, fun _ => rfl,
        fun _ hentry => nomatch hentry⟩
    obtain ⟨entries, heq, value, rest, hentries, hvalue, -⟩ := hvalues _ hdump
    cases heq
    cases hentries
    rcases hvalue with hnone | ⟨s, hs⟩
    · cases hnone
    · cases hs

end ResponseFormat

end Fenic
