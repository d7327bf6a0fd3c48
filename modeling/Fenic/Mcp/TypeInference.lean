import Fenic.Types.DataType
import Fenic.Lib.Except
import Mathlib.Data.List.Sort

/-!
# `Mcp.TypeInference` — types of Python values

`infer_dtype_from_pyobj` reads a data type off a value, and `infer_pytype_from_dtype` gives the Python type under which a
value of a data type is validated. The first is no inverse of the second: what it can infer (`inferred_isInferable`) has no
doubles, no documents and no embeddings.
-/

namespace Fenic

namespace Mcp

/-! ## Python values -/

inductive PyFloat where
  | finite (x : Rat)
  | infinity (negative : Bool)
  | nan
  deriving DecidableEq

/-- The values that a tool is called with, and those of other types. Dates stand in their ISO format. -/
inductive PyObj where
  | none
  | bool (b : Bool)
  | int (n : Int)
  | float (x : PyFloat)
  | str (s : String)
  | datetime (isoformat : String)
  | date (isoformat : String)
  | list (items : List PyObj)
  | dict (entries : List (String × PyObj))
  | other (typeName : String)

/-- An instance of one of the types in `ToolParameterType`. -/
def PyObj.isToolParameter : PyObj → Bool
  | .str _ => true
  | .int _ => true
  | .float _ => true
  | .bool _ => true
  | .list _ => true
  | .dict _ => true
  | _ => false

/-- `ToolParameterType`: strings, numbers, booleans, lists and dicts. -/
abbrev ToolParameterType := { value : PyObj // value.isToolParameter = true }

/-- The types of fields in the validation model. A model takes the values of a `Literal` from its list. -/
inductive PyType where
  | bool
  | int
  | float
  | str
  | date
  | list
  | dict
  | listOfFloat
  | literal (values : List ToolParameterType)
  | listOfLiteral (values : List ToolParameterType)
  /-- `Literal["structured", "markdown"]`. -/
  | tableFormat

/-! ## Errors -/

/-- The exceptions of tool calls, with their messages. -/
inductive McpError where
  | planError (message : String)
  | typeMismatchError (message : String)
  | typeInferenceError (message : String)
  | typeError (message : String)
  deriving DecidableEq, Repr

/-- `TypeInferenceError`. -/
def typeInferenceError (message path : String) : McpError :=
  .typeInferenceError (if path = "" then message else message ++ " at " ++ path)

/-! ## From data types -/

/-- `infer_pytype_from_dtype`. -/
def inferPytypeFromDtype : DataType → Except McpError PyType
  | .booleanType => .ok .bool
  | .integerType => .ok .int
  | .floatType => .ok .float
  | .stringType => .ok .str
  | .dateType => .ok .date
  -- the class is called with its time zone only
  | .timestampType => .error (.typeError "function missing required argument 'year' (pos 1)")
  | .jsonType => .ok .str
  | .markdownType => .ok .str
  | .htmlType => .ok .str
  | .transcriptType _ => .ok .str
  | .documentPathType _ => .ok .str
  | .arrayType _ => .ok .list
  | .structType _ => .ok .dict
  | .embeddingType .. => .ok .listOfFloat
  | .doubleType => .error (typeInferenceError (s!"Unsupported type {DataType.doubleType}") "")

/-! ## From values -/

/-- The order of the numeric types. -/
def numericIndex : DataType → Option Nat
  | .integerType => some 0
  | .floatType => some 1
  | .doubleType => some 2
  | _ => none

/-- The names of the fields of two structs, sorted. -/
def fieldNames (fields fields' : List (String × DataType)) : List String :=
  List.insertionSort (· ≤ ·) (fields.map Prod.fst ++ fields'.map Prod.fst).dedup

def fieldPath (path name : String) : String := if path = "" then name else path ++ "." ++ name

def itemPath (path : String) (i : Nat) : String := path ++ "[" ++ toString i ++ "]"

mutual

/-- `_find_common_supertype`. -/
def findCommonSupertype (path : String) (type1 type2 : DataType) : Except McpError DataType :=
  if type1 = type2 then .ok type1
  else
    match numericIndex type1, numericIndex type2 with
    | some i, some j => .ok (if i < j then type2 else type1)
    | _, _ =>
      match type1, type2 with
      | .arrayType t, .arrayType t' => (findCommonSupertype path t t').map .arrayType
      | .structType fields, .structType fields' =>
        ((fieldNames fields fields').mapM fun name =>
          (commonFieldType path fields fields' name).map fun t => (name, t)).map .structType
      | _, _ => .error (typeInferenceError (s!"Incompatible types: {type1} vs {type2}") path)

/-- The type of a field in the merged struct: the first field of the name on each side counts. -/
def commonFieldType (path : String) :
    List (String × DataType) → List (String × DataType) → String → Except McpError DataType
  | [], fields', name =>
    match fields'.lookup name with
    | some t' => .ok t'
    | none => .error (typeInferenceError "" path)
  | (fieldName, t) :: fields, fields', name =>
    if fieldName = name then
      match fields'.lookup name with
      | some t' => findCommonSupertype (fieldPath path name) t t'
      | none => .ok t
    else commonFieldType path fields fields' name

end

/-- The name of the type of a value that has no data type. -/
def unsupported (typeName path : String) : McpError := typeInferenceError ("Unsupported type " ++ typeName) path

mutual

/-- `infer_dtype_from_pyobj`. -/
def inferDtypeFromPyobj (path : String) : PyObj → Except McpError DataType
  | .bool _ => .ok .booleanType
  | .int _ => .ok .integerType
  | .float _ => .ok .floatType
  | .str _ => .ok .stringType
  | .datetime _ => .ok .timestampType
  | .date _ => .ok .dateType
  | .none => .error (typeInferenceError "Null value; please provide a concrete type" path)
  | .list items => do
    let elementTypes ← inferItems path 0 items
    match elementTypes with
    | [] => .error (typeInferenceError "Empty list; cannot infer element type" path)
    | first :: rest => (rest.foldlM (findCommonSupertype path) first).map .arrayType
  | .dict entries => (inferEntries path entries).map .structType
  | .other typeName => .error (unsupported typeName path)

def inferItems (path : String) (i : Nat) : List PyObj → Except McpError (List DataType)
  | [] => .ok []
  | item :: items => do
    let t ← inferDtypeFromPyobj (itemPath path i) item
    let ts ← inferItems path (i + 1) items
    pure (t :: ts)

def inferEntries (path : String) : List (String × PyObj) → Except McpError (List (String × DataType))
  | [] => .ok []
  | (key, value) :: entries => do
    let t ← inferDtypeFromPyobj (fieldPath path key) value
    let fields ← inferEntries path entries
    pure ((key, t) :: fields)

end

/-! ## What can be inferred -/

mutual

/-- The types that values have: neither doubles nor documents nor embeddings are among them. -/
def isInferable : DataType → Bool
  | .booleanType => true
  | .integerType => true
  | .floatType => true
  | .stringType => true
  | .timestampType => true
  | .dateType => true
  | .arrayType t => isInferable t
  | .structType fields => areInferable fields
  | _ => false

def areInferable : List (String × DataType) → Bool
  | [] => true
  | (_, t) :: fields => isInferable t && areInferable fields

end

theorem isInferable_of_lookup {fields : List (String × DataType)} {name : String} {t : DataType}
    (hfields : areInferable fields = true) (h : fields.lookup name = some t) : isInferable t = true := by
  induction fields with
  | nil => cases h
  | cons field fields ih =>
    obtain ⟨hu, hrest⟩ := Bool.and_eq_true_iff.mp hfields
    rw [List.lookup_cons] at h
    split at h
    next => exact Option.some_inj.mp h ▸ hu
    next => exact ih hrest h

theorem areInferable_of_forall₂ {names : List String} {fields : List (String × DataType)}
    (h : List.Forall₂ (fun _ field => isInferable field.2 = true) names fields) : areInferable fields = true := by
  induction h with
  | nil => rfl
  | @cons _ field _ _ hfield _ ih =>
    obtain ⟨n, t⟩ := field
    show (isInferable t && areInferable _) = true
    rw [show isInferable t = true from hfield, ih]
    rfl

mutual

theorem findCommonSupertype_isInferable : ∀ (type1 : DataType) (path : String) (type2 t : DataType),
    isInferable type1 = true → isInferable type2 = true → findCommonSupertype path type1 type2 = .ok t →
      isInferable t = true
  | type1, path, type2, t, h1, h2, h => by
    unfold findCommonSupertype at h
    split at h
    · cases h
      exact h1
    · split at h
      · cases h
        split
        · exact h2
        · exact h1
      · split at h
        next _ u u' _ _ =>
            obtain ⟨v, hv, rfl⟩ := Except.map_eq_ok.mp h
            exact findCommonSupertype_isInferable u path u' v h1 h2 hv
        next _ fields fields' _ _ =>
            obtain ⟨merged, hmerged, rfl⟩ := Except.map_eq_ok.mp h
            refine areInferable_of_forall₂ ((Except.mapM_eq_ok.mp hmerged).imp fun name field hfield => ?_)
            obtain ⟨v, hv, rfl⟩ := Except.map_eq_ok.mp hfield
            exact commonFieldType_isInferable fields path fields' name v h1 h2 hv
        next => cases h

theorem commonFieldType_isInferable : ∀ (fields : List (String × DataType)) (path : String)
    (fields' : List (String × DataType)) (name : String) (t : DataType), areInferable fields = true →
      areInferable fields' = true → commonFieldType path fields fields' name = .ok t → isInferable t = true
  | [], path, fields', name, t, _, h2, h => by
    unfold commonFieldType at h
    split at h
    next u hlookup =>
        cases h
        exact isInferable_of_lookup h2 hlookup
    next => cases h
  | (n, u) :: fields, path, fields', name, t, h1, h2, h => by
    obtain ⟨hu, hrest⟩ := Bool.and_eq_true_iff.mp h1
    unfold commonFieldType at h
    split at h
    · split at h
      next u' hlookup =>
          exact findCommonSupertype_isInferable u _ u' t hu (isInferable_of_lookup h2 hlookup) h
      next =>
          cases h
          exact hu
    · exact commonFieldType_isInferable fields path fields' name t hrest h2 h

end

theorem foldlM_isInferable {path : String} {types : List DataType} {first t : DataType}
    (hfirst : isInferable first = true) (htypes : ∀ u ∈ types, isInferable u = true)
    (h : types.foldlM (findCommonSupertype path) first = .ok t) : isInferable t = true := by
  induction types generalizing first with
  | nil =>
    cases h
    exact hfirst
  | cons u types ih =>
    rw [List.foldlM_cons, Except.bind_eq_ok] at h
    obtain ⟨v, hv, h⟩ := h
    have hv' := findCommonSupertype_isInferable first path u v hfirst (htypes u List.mem_cons_self) hv
    exact ih hv' (fun u hu => htypes u (List.mem_cons_of_mem _ hu)) h

mutual

/-- **Whatever is inferred is inferable.** -/
theorem inferred_isInferable : ∀ (value : PyObj) (path : String) (t : DataType),
    inferDtypeFromPyobj path value = .ok t → isInferable t = true
  | .bool _, _, _, h => by cases h; rfl
  | .int _, _, _, h => by cases h; rfl
  | .float _, _, _, h => by cases h; rfl
  | .str _, _, _, h => by cases h; rfl
  | .datetime _, _, _, h => by cases h; rfl
  | .date _, _, _, h => by cases h; rfl
  | .none, _, _, h => by cases h
  | .other _, _, _, h => by cases h
  | .list items, path, t, h => by
    rw [inferDtypeFromPyobj, Except.bind_eq_ok] at h
    obtain ⟨types, htypes, h⟩ := h
    have hall := inferItems_isInferable items path 0 types htypes
    split at h
    next => cases h
    next first rest =>
        obtain ⟨u, hu, rfl⟩ := Except.map_eq_ok.mp h
        show isInferable u = true
        exact foldlM_isInferable (hall first List.mem_cons_self) (fun v hv => hall v (List.mem_cons_of_mem _ hv)) hu
  | .dict entries, path, t, h => by
    obtain ⟨fields, hfields, rfl⟩ := Except.map_eq_ok.mp h
    exact inferEntries_isInferable entries path fields hfields

theorem inferItems_isInferable : ∀ (items : List PyObj) (path : String) (i : Nat) (types : List DataType),
    inferItems path i items = .ok types → ∀ t ∈ types, isInferable t = true
  | [], _, _, types, h => by
    cases h
    exact fun t ht => absurd ht List.not_mem_nil
  | item :: items, path, i, types, h => by
    rw [inferItems] at h
    simp only [Except.bind_eq_ok, Except.pure_eq_ok] at h
    obtain ⟨t, ht, ts, hts, heq⟩ := h
    cases heq
    intro u hu
    rcases List.mem_cons.mp hu with rfl | hu
    · exact inferred_isInferable item _ u ht
    · exact inferItems_isInferable items path (i + 1) ts hts u hu

theorem inferEntries_isInferable : ∀ (entries : List (String × PyObj)) (path : String)
    (fields : List (String × DataType)), inferEntries path entries = .ok fields → areInferable fields = true
  | [], _, fields, h => by
    cases h
    rfl
  | (key, value) :: entries, path, fields, h => by
    rw [inferEntries] at h
    simp only [Except.bind_eq_ok, Except.pure_eq_ok] at h
    obtain ⟨t, ht, rest, hrest, heq⟩ := h
    cases heq
    show (isInferable t && areInferable rest) = true
    rw [inferred_isInferable value _ t ht, inferEntries_isInferable entries path rest hrest]
    rfl

end

end Mcp

end Fenic
