import Fenic.ModelClient.RequestKey
import Fenic.Types.DataType

/-!
# `Expressions.Values` — the attributes of expressions, and how Python compares them

Most attributes of an expression are texts, integers, flags, members of an enumeration, or data classes of these, and
`==` tells any two of them apart. Four kinds are compared more coarsely: floats, for which `-0.0 == 0.0`; Python values
of any type, for which `1 == True == 1.0`; response formats, which are compared by the fingerprint of their schema; and
what is made of these.
-/

namespace Fenic

namespace Expressions

/-! ## Enumerations -/

/-- `Operator`. -/
inductive Operator where
  | eq
  | notEq
  | lt
  | ltEq
  | gt
  | gtEq
  | plus
  | minus
  | multiply
  | divide
  | and
  | or
  deriving DecidableEq

inductive SemanticSimilarityMetric where
  | cosine
  | l2
  | dot
  deriving DecidableEq

inductive TranscriptFormatType where
  | srt
  | generic
  | webvtt
  deriving DecidableEq

inductive FuzzySimilarityMethod where
  | indel
  | levenshtein
  | damerauLevenshtein
  | jaroWinkler
  | jaro
  | hamming
  deriving DecidableEq

inductive StringCasingType where
  | lower
  | upper
  | title
  deriving DecidableEq

inductive StripCharsSide where
  | left
  | right
  | both
  deriving DecidableEq

inductive DateTimeUnit where
  | year
  | month
  | day
  | hour
  | minute
  | second
  | millisecond
  deriving DecidableEq

inductive ChunkLengthFunction where
  | character
  | word
  | token
  deriving DecidableEq

inductive ChunkCharacterSet where
  | custom
  | ascii
  | unicode
  deriving DecidableEq

/-! ## Data classes -/

structure TextChunkExprConfiguration where
  desiredChunkSize : Nat
  chunkOverlapPercentage : Nat
  chunkLengthFunctionName : ChunkLengthFunction
  deriving DecidableEq

structure RecursiveTextChunkExprConfiguration extends TextChunkExprConfiguration where
  chunkingCharacterSetName : ChunkCharacterSet
  chunkingCharacterSetCustomCharacters : Option (List String)
  deriving DecidableEq

structure ResolvedModelAlias where
  name : String
  profile : Option String
  deriving DecidableEq

structure ResolvedClassDefinition where
  label : String
  description : Option String
  deriving DecidableEq

/-- The format of a summary. -/
inductive SummaryFormat where
  | keyPoints (maxPoints : Nat)
  | paragraph (maxWords : Nat)
  deriving DecidableEq

/-! ## Floats -/

/-- A Python float. A finite one is the rational it stands for; zero has two signs. -/
inductive PyFloat where
  | finite (value : Rat)
  | negativeZero
  | infinity (negative : Bool)
  | nan
  deriving DecidableEq

/-- `float.__eq__`. -/
def PyFloat.eq : PyFloat → PyFloat → Bool
  | .finite q, .finite r => q == r
  | .negativeZero, .negativeZero => true
  | .negativeZero, .finite r => r == 0
  | .finite q, .negativeZero => q == 0
  | .infinity negative, .infinity negative' => negative == negative'
  | _, _ => false

/-- `np.array_equal` of two vectors. -/
def vectorEq : List PyFloat → List PyFloat → Bool
  | [], [] => true
  | x :: xs, y :: ys => x.eq y && vectorEq xs ys
  | _, _ => false

/-! ## Python values -/

/-- A Python value that an example may hold. A moment is given in microseconds of UTC, with the offset of its time zone
    if it has one. -/
inductive PyValue where
  | none
  | bool (b : Bool)
  | int (n : Int)
  | float (x : PyFloat)
  | str (s : String)
  | date (ordinal : Int)
  | datetime (utc : Int) (offset : Option Int)
  | list (items : List PyValue)
  | dict (entries : List (String × PyValue))

/-- The number that a value is compared as. -/
def PyValue.number? : PyValue → Option PyFloat
  | .bool b => some (.finite (if b then 1 else 0))
  | .int n => some (.finite n)
  | .float x => some x
  | _ => Option.none

mutual

/-- `==` of two values. -/
def PyValue.eq : PyValue → PyValue → Bool
  | .none, .none => true
  | .str s, .str s' => s == s'
  | .date d, .date d' => d == d'
  | .datetime utc offset, .datetime utc' offset' => utc == utc' && offset.isSome == offset'.isSome
  | .list items, .list items' => PyValue.eqItems items items'
  | .dict entries, .dict entries' => entries.length == entries'.length && PyValue.eqEntries entries entries'
  | v, v' =>
    match v.number?, v'.number? with
    | some x, some y => x.eq y
    | _, _ => false

def PyValue.eqItems : List PyValue → List PyValue → Bool
  | [], [] => true
  | v :: vs, v' :: vs' => v.eq v' && PyValue.eqItems vs vs'
  | _, _ => false

/-- Every entry of the one dict is in the other. -/
def PyValue.eqEntries : List (String × PyValue) → List (String × PyValue) → Bool
  | [], _ => true
  | (key, v) :: entries, entries' =>
    (match entries'.lookup key with
      | some v' => v.eq v'
      | Option.none => false) && PyValue.eqEntries entries entries'

end

/-! ## Literals -/

/-- The value of a `LiteralExpr` together with its type. `lit` infers the type from the value, so a value is of its type;
    an integer where the type is a float is the float it is cast to. A missing field of a struct is null. -/
inductive Literal where
  | null (dataType : DataType)
  | string (s : String)
  | integer (n : Int)
  | float (x : PyFloat)
  | double (x : PyFloat)
  | boolean (b : Bool)
  | date (ordinal : Int)
  | timestamp (utc : Int) (aware : Bool)
  | array (elementType : DataType) (items : List Literal)
  | struct (fields : List (String × Literal))

mutual

/-- `literal == other.literal and data_type == other.data_type`. -/
def Literal.eq : Literal → Literal → Bool
  | .null t, .null t' => t == t'
  | .string s, .string s' => s == s'
  | .integer n, .integer n' => n == n'
  | .float x, .float y => x.eq y
  | .double x, .double y => x.eq y
  | .boolean b, .boolean b' => b == b'
  | .date d, .date d' => d == d'
  | .timestamp utc aware, .timestamp utc' aware' => utc == utc' && aware == aware'
  | .array t items, .array t' items' => t == t' && Literal.eqItems items items'
  | .struct fields, .struct fields' => Literal.eqFields fields fields'
  | _, _ => false

def Literal.eqItems : List Literal → List Literal → Bool
  | [], [] => true
  | l :: ls, l' :: ls' => l.eq l' && Literal.eqItems ls ls'
  | _, _ => false

def Literal.eqFields : List (String × Literal) → List (String × Literal) → Bool
  | [], [] => true
  | (name, l) :: fields, (name', l') :: fields' => name == name' && l.eq l' && Literal.eqFields fields fields'
  | _, _ => false

end

/-! ## Response formats and examples -/

section

variable {Model : Type}

/-- `ResolvedResponseFormat`, over the classes that Pydantic makes. -/
structure ResolvedResponseFormat (Model : Type) where
  pydanticModel : Model
  jsonSchema : ModelClient.JsonSchema
  promptSchemaDefinition : String
  structType : Option DataType

/-- `ResolvedResponseFormat.__eq__`. -/
def ResolvedResponseFormat.eq (format format' : ResolvedResponseFormat Model) : Bool :=
  format.jsonSchema.schemaFingerprint == format'.jsonSchema.schemaFingerprint

/-- An object of a Pydantic class. -/
structure ModelObject (Model : Type) where
  cls : Model
  fields : List (String × PyValue)

/-- `BaseModel.__eq__`. -/
def ModelObject.eq [DecidableEq Model] (object object' : ModelObject Model) : Bool :=
  object.cls == object'.cls && PyValue.eq (.dict object.fields) (.dict object'.fields)

/-- `MapExample`. The items of the input are in the order of their keys, into which `__eq__` sorts them. -/
structure MapExample (Model : Type) where
  input : List (String × PyValue)
  output : String ⊕ ModelObject Model

/-- `==` of the sorted items of two mappings. -/
def itemsEq : List (String × PyValue) → List (String × PyValue) → Bool
  | [], [] => true
  | (key, v) :: items, (key', v') :: items' => key == key' && v.eq v' && itemsEq items items'
  | _, _ => false

def MapExample.eq [DecidableEq Model] (example₁ example₂ : MapExample Model) : Bool :=
  (match example₁.output, example₂.output with
    | .inl text, .inl text' => text == text'
    | .inr object, .inr object' => object.eq object'
    | _, _ => false) && itemsEq example₁.input example₂.input

structure PredicateExample where
  input : List (String × PyValue)
  output : Bool

def PredicateExample.eq (example₁ example₂ : PredicateExample) : Bool :=
  example₁.output == example₂.output && itemsEq example₁.input example₂.input

structure ClassifyExample where
  input : String
  output : String
  deriving DecidableEq

/-- `==` of two example collections. -/
def collectionEq {α : Type} (eq : α → α → Bool) : List α → List α → Bool
  | [], [] => true
  | e :: es, e' :: es' => eq e e' && collectionEq eq es es'
  | _, _ => false

end

/-- `==` of two attributes that may be `None`. -/
def optionEq {α : Type} (eq : α → α → Bool) : Option α → Option α → Bool
  | none, none => true
  | some a, some a' => eq a a'
  | _, _ => false

end Expressions

end Fenic
