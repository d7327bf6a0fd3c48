import Fenic.Lib.Keyed
import Fenic.Mcp.TypeInference

/-!
# `SemanticExamples.Collections` — collections of examples

A collection of examples keeps its examples together with the types of their fields. The first example says which fields there are
and of which types; every later one has to have the same.

`createExample` is the method of the three collections that look at types, which differ in what an example is (`ExampleKind`). A
method that raises leaves its collection in the state that it has got to, so every step gives the state beside the result.

## Contents
- **Examples.** Their values (`PyDict`), and the errors.
- **The validator.** `ExampleTypeValidator.processExample` and `validateAgainstColumnTypes`.
- **Collections.** `createExample`, and `run` for a sequence of calls.
-/

namespace Fenic

namespace SemanticExamples

open Mcp

/-! ## Examples -/

mutual

/-- The keys of every dict in a value are distinct. -/
def distinctKeys : PyObj → Bool
  | .list items => distinctKeysItems items
  | .dict entries => decide (entries.map Prod.fst).Nodup && distinctKeysEntries entries
  | _ => true

def distinctKeysItems : List PyObj → Bool
  | [] => true
  | item :: items => distinctKeys item && distinctKeysItems items

def distinctKeysEntries : List (String × PyObj) → Bool
  | [] => true
  | (_, value) :: entries => distinctKeys value && distinctKeysEntries entries

end

/-- A value as Python has it. -/
abbrev Value := { value : PyObj // distinctKeys value = true }

/-- A mapping from names to values. -/
structure PyDict where
  entries : List (String × PyObj)
  distinct : distinctKeys (.dict entries) = true

def PyDict.keys (dict : PyDict) : List String := dict.entries.map Prod.fst

theorem PyDict.nodup (dict : PyDict) : dict.keys.Nodup :=
  of_decide_eq_true (Bool.and_eq_true_iff.mp dict.distinct).1

/-- Instances of Pydantic models, with their classes. -/
structure ModelClasses (M : Type) where
  typeName : M → String
  /-- `isinstance(first, type(current))`. -/
  isInstance : M → M → Bool

inductive Output (M : Type) where
  | str (s : String)
  | model (m : M)

def Output.typeName {M : Type} (classes : ModelClasses M) : Output M → String
  | .str _ => "str"
  | .model m => classes.typeName m

structure MapExample (M : Type) where
  input : PyDict
  output : Output M

structure ClassifyExample where
  input : String
  output : String

structure PredicateExample where
  input : PyDict
  output : Bool

structure JoinExample where
  leftOn : Value
  rightOn : Value
  output : Bool

/-- What is raised: `InvalidExampleCollectionError` with what its message tells, the errors of the inference, and what Python raises
itself. -/
inductive ExampleError where
  | expectedClass (className typeName : String)
  | mixedOutputs (firstType currentType : String)
  | differentModels (firstType currentType : String)
  | noneValue (exampleNum : Nat) (key : String)
  | inconsistentFields (exampleNum : Nat) (expected actual : List String)
  | typeMismatch (exampleNum : Nat) (key : String) (expected inferred : DataType)
  | missingFields (missing fields : List String)
  | columnMismatch (fieldName : String) (columnType exampleType : DataType)
  | typeInference (error : McpError)
  | keyError (key : String)

/-! ## The validator -/

/-- `_ExampleTypeValidator`. -/
structure ExampleTypeValidator where
  fieldTypes : List (String × DataType)
  isFirstExample : Bool

def ExampleTypeValidator.new : ExampleTypeValidator := ⟨[], true⟩

def sorted (names : List String) : List String := names.insertionSort (· ≤ ·)

def sameKeys (keys keys' : List String) : Bool := keys.all (· ∈ keys') && keys'.all (· ∈ keys)

def isNone : PyObj → Bool
  | .none => true
  | _ => false

/-- The type of a field, with the field as the path in messages. -/
def inferField (key : String) (value : PyObj) : Except ExampleError DataType :=
  (inferDtypeFromPyobj key value).mapError .typeInference

/-- The loop of the first example. The types of the fields before the one that fails have been written. -/
def establish : List (String × PyObj) → List (String × DataType) → Except ExampleError Unit × List (String × DataType)
  | [], fieldTypes => (.ok (), fieldTypes)
  | (key, value) :: entries, fieldTypes =>
    match inferField key value with
    | .error e => (.error e, fieldTypes)
    | .ok t => establish entries (Keyed.set key t fieldTypes)

/-- The check of one field of a later example. -/
def validateField (exampleNum : Nat) (fieldTypes : List (String × DataType)) (entry : String × PyObj) :
    Except ExampleError Unit := do
  let inferredType ← inferField entry.1 entry.2
  match fieldTypes.lookup entry.1 with
  | none => .error (.keyError entry.1)
  | some expected => if expected ≠ inferredType then .error (.typeMismatch exampleNum entry.1 expected inferredType) else .ok ()

namespace ExampleTypeValidator

/-- `process_example`. -/
def processExample (exampleDict : List (String × PyObj)) (exampleNum : Nat) (validator : ExampleTypeValidator) :
    Except ExampleError Unit × ExampleTypeValidator :=
  match exampleDict.find? (fun entry => isNone entry.2) with
  | some (key, _) => (.error (.noneValue exampleNum key), validator)
  | none =>
    if validator.isFirstExample then
      match establish exampleDict validator.fieldTypes with
      | (.ok (), fieldTypes) => (.ok (), { fieldTypes, isFirstExample := false })
      | (.error e, fieldTypes) => (.error e, { validator with fieldTypes })
    else
      let expectedKeys := validator.fieldTypes.map Prod.fst
      let actualKeys := exampleDict.map Prod.fst
      if sameKeys expectedKeys actualKeys then (exampleDict.forM (validateField exampleNum validator.fieldTypes), validator)
      else (.error (.inconsistentFields exampleNum (sorted expectedKeys) (sorted actualKeys)), validator)

/-- `validate_against_column_types`. -/
def validateAgainstColumnTypes (columnTypes : List (String × DataType)) (validator : ExampleTypeValidator) :
    Except ExampleError Unit :=
  let exampleTypes := validator.fieldTypes
  let missingFields := (columnTypes.map Prod.fst).filter (· ∉ exampleTypes.map Prod.fst)
  if missingFields ≠ [] then .error (.missingFields (sorted missingFields) (sorted (exampleTypes.map Prod.fst)))
  else
    columnTypes.forM fun (fieldName, columnType) =>
      match exampleTypes.lookup fieldName with
      | none => .error (.keyError fieldName)
      | some exampleType =>
        if exampleType ≠ columnType then .error (.columnMismatch fieldName columnType exampleType) else .ok ()

end ExampleTypeValidator

/-! ## Collections -/

/-- What the collections differ in: the class of the examples, their fields, and the check of their outputs against the examples that
are there, which the first one passes. -/
structure ExampleKind (E : Type) where
  exampleClass : String
  exampleDict : E → List (String × PyObj)
  distinct : ∀ example_, (exampleDict example_ |>.map Prod.fst).Nodup
  validateOutput : List E → E → Except ExampleError Unit
  validateOutput_nil : ∀ example_, validateOutput [] example_ = .ok ()

structure ExampleCollection (E : Type) where
  examples : List E
  typeValidator : ExampleTypeValidator

def ExampleCollection.new {E : Type} : ExampleCollection E := ⟨[], .new⟩

/-- What `create_example` is called with. -/
inductive Argument (E : Type) where
  | given (value : E)
  | other (typeName : String)

/-- `create_example`. -/
def createExample {E : Type} (kind : ExampleKind E) (argument : Argument E) (collection : ExampleCollection E) :
    Except ExampleError Unit × ExampleCollection E :=
  match argument with
  | .other typeName => (.error (.expectedClass kind.exampleClass typeName), collection)
  | .given value =>
    match kind.validateOutput collection.examples value with
    | .error e => (.error e, collection)
    | .ok () =>
      match collection.typeValidator.processExample (kind.exampleDict value) (collection.examples.length + 1) with
      | (.error e, typeValidator) => (.error e, { collection with typeValidator })
      | (.ok (), typeValidator) => (.ok (), ⟨collection.examples ++ [value], typeValidator⟩)

/-- `_validate_single_example_output_type`. -/
def validateSingleExampleOutputType {M : Type} (classes : ModelClasses M) (examples : List (MapExample M))
    (value : MapExample M) : Except ExampleError Unit :=
  match examples with
  | [] => .ok ()
  | first :: _ =>
    match first.output, value.output with
    | .str _, .str _ => .ok ()
    | .model m, .model m' =>
      if classes.isInstance m m' then .ok () else .error (.differentModels (classes.typeName m) (classes.typeName m'))
    | output, output' => .error (.mixedOutputs (output.typeName classes) (output'.typeName classes))

/-- `MapExampleCollection`. -/
def mapExamples {M : Type} (classes : ModelClasses M) : ExampleKind (MapExample M) where
  exampleClass := "MapExample"
  exampleDict value := value.input.entries
  distinct value := value.input.nodup
  validateOutput := validateSingleExampleOutputType classes
  validateOutput_nil _ := rfl

/-- `PredicateExampleCollection`. -/
def predicateExamples : ExampleKind PredicateExample where
  exampleClass := "PredicateExample"
  exampleDict value := value.input.entries
  distinct value := value.input.nodup
  validateOutput _ _ := .ok ()
  validateOutput_nil _ := rfl

def leftOnKey : String := "left_on"

def rightOnKey : String := "right_on"

/-- `JoinExampleCollection`. -/
def joinExamples : ExampleKind JoinExample where
  exampleClass := "JoinExample"
  exampleDict value := [(leftOnKey, value.leftOn), (rightOnKey, value.rightOn)]
  distinct _ := by simp [leftOnKey, rightOnKey]
  validateOutput _ _ := .ok ()
  validateOutput_nil _ := rfl

/-- The collection after some calls, whether they raise or not. -/
def run {E : Type} (kind : ExampleKind E) (calls : List (Argument E)) : ExampleCollection E :=
  calls.foldl (fun collection argument => (createExample kind argument collection).2) .new

end SemanticExamples

end Fenic
