import Fenic.Lib.Except
import Fenic.Lib.Kleene
import Fenic.Types.DataType

/-!
# `LogicalPlan.Plan` — plan nodes, their validation and their meaning

The planner's rules inspect a handful of expression classes: column references, aliases, sort markers and
the boolean connectives. Every other class of `core/_logical_plan/expressions` enters them only through its
marker bases (`SemanticExpr`, `AggregateExpr`), its own attributes and its children, so it is one
constructor here, `other`.

`A` is the type of those attributes. Its `BEq` is the class hook `_eq_specific`; it is *not* assumed
reflexive, because a float attribute that is NaN is unequal to itself.

A plan node stores the schema its constructor computed and, when the frame was persisted, a cache key.
`Filter` is the one class the rewrite rules take apart, so it has its own constructor; every other class is
a `node` carrying its `PlanOp`.

## Contents
- **Validation.** `toColumnField`, `validateScalarExpr`, `buildFilter` and `buildSchema` are the checks a
  constructor runs. `Accepted` says that every node of a plan passed them.
- **Rebuilding.** `withChildren` re-runs the constructor over new children, as each `with_children` does;
  sources keep their stored schema, and some classes forget their cache key.
- **Meaning.** `denote` runs a plan under an arbitrary interpretation of its operators and leaf predicates.
-/

namespace Fenic

/-- The exceptions the planner raises, with their messages. -/
inductive PyException where
  | planError (message : String)
  | typeError (message : String)
  | typeMismatchError (message : String)
  | valueError (message : String)
  | indexError (message : String)
  | internalError (message : String)
  | attributeError (message : String)
  deriving DecidableEq, Repr

/-- The two operators a `BooleanExpr` is built with. -/
inductive BooleanOp where
  | and
  | or
  deriving DecidableEq, Repr

/-- `Operator.value`. -/
def BooleanOp.value : BooleanOp → String
  | .and => "AND"
  | .or => "OR"

/-- An expression class without a constructor of its own: its name and its marker bases. -/
structure ExprClass where
  name : String
  isSemantic : Bool
  isAggregate : Bool
  deriving DecidableEq, Repr

/-- A logical expression. -/
inductive LogicalExpr (A : Type) where
  | column (name : String)
  | alias (expr : LogicalExpr A) (name : String)
  | sort (expr : LogicalExpr A) (ascending nullsLast : Bool)
  | not (expr : LogicalExpr A)
  | boolean (left right : LogicalExpr A) (op : BooleanOp)
  | other (cls : ExprClass) (attrs : A) (children : List (LogicalExpr A))
  deriving Repr

namespace LogicalExpr

variable {A : Type}

/-! ## Equality — `LogicalExpr.__eq__` -/

mutual

/-- Same class, equal own attributes, equal children. -/
def beq [BEq A] : LogicalExpr A → LogicalExpr A → Bool
  | .column n, .column m => n == m
  | .alias e n, .alias e' n' => n == n' && beq e e'
  | .sort e a nl, .sort e' a' nl' => a == a' && nl == nl' && beq e e'
  | .not e, .not e' => beq e e'
  | .boolean l r op, .boolean l' r' op' => op == op' && beq l l' && beq r r'
  | .other c a es, .other c' a' es' => c == c' && a == a' && beqList es es'
  | _, _ => false

/-- Pairwise equality of two child lists; lists of different length are unequal. -/
def beqList [BEq A] : List (LogicalExpr A) → List (LogicalExpr A) → Bool
  | [], [] => true
  | e :: es, e' :: es' => beq e e' && beqList es es'
  | _, _ => false

end

instance [BEq A] : BEq (LogicalExpr A) := ⟨beq⟩

@[simp] theorem not_beq_not [BEq A] (e e' : LogicalExpr A) :
    (LogicalExpr.not e == LogicalExpr.not e') = (e == e') := rfl

@[simp] theorem boolean_beq_boolean [BEq A] (l r l' r' : LogicalExpr A) (op op' : BooleanOp) :
    (boolean l r op == boolean l' r' op') = (op == op' && l == l' && r == r') := rfl

/-! ## Marker classes -/

/-- `isinstance(expr, SemanticExpr)`. -/
def isSemantic : LogicalExpr A → Bool
  | .other cls _ _ => cls.isSemantic
  | _ => false

/-- `isinstance(expr, AggregateExpr)`. -/
def isAggregate : LogicalExpr A → Bool
  | .other cls _ _ => cls.isAggregate
  | _ => false

/-- `isinstance(expr, SortExpr)`. -/
def isSort : LogicalExpr A → Bool
  | .sort .. => true
  | _ => false

/-- Neither connective: the rules treat the expression as one atomic predicate. -/
def isLeaf : LogicalExpr A → Bool
  | .not _ => false
  | .boolean .. => false
  | _ => true

mutual

/-- `count_semantic_predicate_expressions`: the semantic nodes of the whole tree. -/
def countSemantic : LogicalExpr A → Nat
  | .column _ => 0
  | .alias e _ => countSemantic e
  | .sort e _ _ => countSemantic e
  | .not e => countSemantic e
  | .boolean l r _ => countSemantic l + countSemantic r
  | .other cls _ es => (if cls.isSemantic then 1 else 0) + countSemanticList es

def countSemanticList : List (LogicalExpr A) → Nat
  | [] => 0
  | e :: es => countSemantic e + countSemanticList es

end

/-! ## Meaning of a predicate

The leaf predicates get an arbitrary row-wise truth value; the connectives are Kleene's. -/

/-- The truth value of a predicate on a row, given the truth values of its leaves. -/
def meaning {Row : Type} (leaf : LogicalExpr A → Row → Kleene.Truth) :
    LogicalExpr A → Row → Kleene.Truth
  | .not e, r => Kleene.not (meaning leaf e r)
  | .boolean l r' .and, r => Kleene.and (meaning leaf l r) (meaning leaf r' r)
  | .boolean l r' .or, r => Kleene.or (meaning leaf l r) (meaning leaf r' r)
  | e, r => leaf e r

variable {Row : Type}

@[simp] theorem meaning_not (leaf : LogicalExpr A → Row → Kleene.Truth)
    (e : LogicalExpr A) (r : Row) : meaning leaf (.not e) r = Kleene.not (meaning leaf e r) := rfl

@[simp] theorem meaning_and (leaf : LogicalExpr A → Row → Kleene.Truth)
    (l r' : LogicalExpr A) (r : Row) :
    meaning leaf (.boolean l r' .and) r = Kleene.and (meaning leaf l r) (meaning leaf r' r) := rfl

@[simp] theorem meaning_or (leaf : LogicalExpr A → Row → Kleene.Truth)
    (l r' : LogicalExpr A) (r : Row) :
    meaning leaf (.boolean l r' .or) r = Kleene.or (meaning leaf l r) (meaning leaf r' r) := rfl

/-- Every leaf predicate is row-wise: an aggregate or a sort marker has no value on a single row. -/
def rowwise : LogicalExpr A → Bool
  | .not e => rowwise e
  | .boolean l r _ => rowwise l && rowwise r
  | e => !e.isAggregate && !e.isSort

@[simp] theorem rowwise_not (e : LogicalExpr A) : rowwise (.not e) = rowwise e := rfl

@[simp] theorem rowwise_boolean (l r : LogicalExpr A) (op : BooleanOp) :
    rowwise (.boolean l r op) = (rowwise l && rowwise r) := rfl

/-- A row-wise predicate is not itself an aggregate or a sort marker. -/
theorem not_aggregate_of_rowwise {e : LogicalExpr A} (h : e.rowwise = true) :
    e.isAggregate = false ∧ e.isSort = false := by
  cases e <;> simp_all [rowwise, isAggregate, isSort]

end LogicalExpr

/-! ## Plan nodes, their validation and their meaning -/

variable {A : Type}

/-! ## Plan classes -/

/-- `CacheInfo`: the key under which the node's frame is kept. -/
structure CacheInfo where
  cacheKey : Option String
  deriving DecidableEq, Repr

/-- `JoinType`. -/
inductive JoinType where
  | inner
  | left
  | right
  | full
  | cross
  deriving DecidableEq, Repr

/-- A plan class other than `Filter`, with the attributes its constructor takes besides its inputs. -/
inductive PlanOp (A : Type) where
  | inMemorySource (source : String)
  | fileSource (paths : List String) (fileFormat : String)
  | tableSource (tableName : String)
  | docSource (paths : List String) (contentType : String)
  | projection (exprs : List (LogicalExpr A))
  | union
  | limit (n : Int)
  | sort (sortExprs : List (LogicalExpr A))
  | join (leftOn rightOn : List (LogicalExpr A)) (how : JoinType)
  | aggregate (groupExprs aggExprs : List (LogicalExpr A))
  | explode (expr : LogicalExpr A) (keepNullAndEmpty : Bool)
  | explodeWithIndex (expr : LogicalExpr A) (indexName : String) (valueName : Option String)
      (keepNullAndEmpty : Bool)
  | dropDuplicates (subset : List (LogicalExpr A))
  | unnest (exprs : List String)
  | sql (templateNames : List String) (templatedQuery : String)
  | semanticJoin (leftOn rightOn : LogicalExpr A) (jinjaTemplate : String)
  | semanticSimilarityJoin (leftOn rightOn : LogicalExpr A) (k : Nat)
  | semanticCluster (byExpr : LogicalExpr A) (numClusters : Nat)
  | fileSink (path : String)
  | tableSink (tableName : String)
  deriving Repr

/-- The four leaf classes. -/
def PlanOp.isSource : PlanOp A → Bool
  | .inMemorySource _ => true
  | .fileSource .. => true
  | .tableSource _ => true
  | .docSource .. => true
  | _ => false

/-- Does `with_children` carry the cache key over to the rebuilt node? -/
def PlanOp.keepsCacheInfo : PlanOp A → Bool
  | .inMemorySource _ => false
  | .fileSink _ => false
  | .tableSink _ => false
  | _ => true

/-- A logical plan. -/
inductive LogicalPlan (A : Type) where
  | filter (input : LogicalPlan A) (predicate : LogicalExpr A) (schema : Schema)
      (cacheInfo : Option CacheInfo)
  | node (op : PlanOp A) (children : List (LogicalPlan A)) (schema : Schema)
      (cacheInfo : Option CacheInfo)
  deriving Repr

namespace LogicalPlan

/-- `LogicalPlan.schema`. -/
def schema : LogicalPlan A → Schema
  | .filter _ _ s _ => s
  | .node _ _ s _ => s

def cacheInfo : LogicalPlan A → Option CacheInfo
  | .filter _ _ _ c => c
  | .node _ _ _ c => c

/-- `LogicalPlan.children`. -/
def children : LogicalPlan A → List (LogicalPlan A)
  | .filter input _ _ _ => [input]
  | .node _ children _ _ => children

/-- Is the plan one of the four leaf classes? -/
def isSource : LogicalPlan A → Bool
  | .filter .. => false
  | .node op _ _ _ => op.isSource

mutual

/-- Induction over plans: a property that passes from the children of a node to the node holds. -/
theorem induction_on_children {P : LogicalPlan A → Prop} (h : ∀ p, (∀ c ∈ p.children, P c) → P p) :
    ∀ p, P p
  | .filter input e s c => by
    have hin : P input := induction_on_children h input
    refine h _ (fun q hq => ?_)
    rw [children, List.mem_singleton] at hq
    rwa [hq]
  | .node op ps s c => h _ (induction_on_children_list h ps)

theorem induction_on_children_list {P : LogicalPlan A → Prop} (h : ∀ p, (∀ c ∈ p.children, P c) → P p) :
    ∀ (ps : List (LogicalPlan A)), ∀ p ∈ ps, P p
  | [] => fun p hp => by cases hp
  | q :: ps => by
    have hq : P q := induction_on_children h q
    have hps : ∀ p ∈ ps, P p := induction_on_children_list h ps
    intro p hp
    rcases List.mem_cons.mp hp with heq | hp
    · rwa [heq]
    · exact hps p hp

end

end LogicalPlan

/-! ## Typing expressions

`Session` collects what the planner asks of the rest of the system: how the remaining expression classes
print and infer their type, and the schemas of the plan classes whose rules live elsewhere. -/

structure Session (A : Type) where
  /-- `str(expr)` of an expression class without a constructor of its own. -/
  exprString : ExprClass → A → List (LogicalExpr A) → String
  /-- The data type such a class infers over an input schema, or the exception it raises. -/
  exprType : ExprClass → A → List (LogicalExpr A) → Schema → Except PyException DataType
  /-- The group-context check of `Aggregate._build_schema` for one aggregate expression. -/
  checkGroupContext : List (LogicalExpr A) → LogicalExpr A → Except PyException Unit
  /-- `_build_schema` of the SQL and semantic plan classes. -/
  planSchema : PlanOp A → List Schema → Except PyException Schema

namespace LogicalExpr

/-- `LogicalExpr.__str__`. -/
def toString (sess : Session A) : LogicalExpr A → String
  | .column n => n
  | .alias e n => s!"{toString sess e} AS {n}"
  | .sort e true _ => s!"asc({toString sess e})"
  | .sort e false _ => s!"desc({toString sess e})"
  | .not e => s!"NOT {toString sess e}"
  | .boolean l r .and => s!"({toString sess l} AND {toString sess r})"
  | .boolean l r .or => s!"({toString sess l} OR {toString sess r})"
  | .other cls a es => sess.exprString cls a es

/-- `to_column_field(...).data_type`. A connective checks that its operands are boolean. -/
def dataType (sess : Session A) (s : Schema) : LogicalExpr A → Except PyException DataType
  | .column n =>
    match s.find? (fun f => f.name == n) with
    | some f => .ok f.dataType
    | none => .error (.valueError (s!"Column '{n}' not found in schema. Available columns: "
        ++ ", ".intercalate (s.columnNames.mergeSort (· ≤ ·))))
  | .alias e _ => dataType sess s e
  | .sort e _ _ => dataType sess s e
  | .not e => do
    let t ← dataType sess s e
    if t = .booleanType then pure .booleanType
    else throw (.typeError
      s!"Type mismatch: Cannot apply NOT to non-boolean types. Type: {t}. Only boolean types are supported.")
  | .boolean l r op => do
    let lt ← dataType sess s l
    let rt ← dataType sess s r
    if lt = .booleanType ∧ rt = .booleanType then pure .booleanType
    else throw (.typeError (s!"Type mismatch: Cannot apply Operator.{op.value} operator to non-boolean types. "
      ++ s!"Left type: {lt}, Right type: {rt}. Both operands must be BooleanType)"))
  | .other cls a es => sess.exprType cls a es s

/-- `to_column_field`: an alias and a column reference keep their own name. -/
def toColumnField (sess : Session A) (s : Schema) (e : LogicalExpr A) : Except PyException ColumnField := do
  let t ← dataType sess s e
  match e with
  | .column n => pure ⟨n, t⟩
  | .alias _ n => pure ⟨n, t⟩
  | e => pure ⟨toString sess e, t⟩

/-- A negation is boolean exactly when its operand is. -/
theorem dataType_not_iff {sess : Session A} {s : Schema} {e : LogicalExpr A} :
    dataType sess s (.not e) = .ok .booleanType ↔ dataType sess s e = .ok .booleanType := by
  simp only [dataType, Except.bind_eq_ok, Except.throw_eq_error, Except.pure_eq_ok, Except.require_eq_ok]
  constructor
  · rintro ⟨t, ht, rfl, -⟩
    exact ht
  · intro h
    exact ⟨_, h, rfl, trivial⟩

/-- A conjunction or disjunction is boolean exactly when both operands are. -/
theorem dataType_boolean_iff {sess : Session A} {s : Schema} {l r : LogicalExpr A} {op : BooleanOp} :
    dataType sess s (.boolean l r op) = .ok .booleanType ↔
      dataType sess s l = .ok .booleanType ∧ dataType sess s r = .ok .booleanType := by
  simp only [dataType, Except.bind_eq_ok, Except.throw_eq_error, Except.pure_eq_ok, Except.require_eq_ok]
  constructor
  · rintro ⟨lt, hl, rt, hr, ⟨rfl, rfl⟩, -⟩
    exact ⟨hl, hr⟩
  · rintro ⟨hl, hr⟩
    exact ⟨_, hl, _, hr, ⟨rfl, rfl⟩, trivial⟩

end LogicalExpr

/-! ## Constructor checks -/

/-- `validate_scalar_expr`: only the outermost class is inspected. -/
def validateScalarExpr (e : LogicalExpr A) (functionName : String) : Except PyException Unit :=
  if e.isSort then
    .error (.planError (s!"Sort expressions are not allowed in \x60{functionName}\x60. "
      ++ "Please use the sort() method instead."))
  else if e.isAggregate then
    .error (.planError (s!"Aggregate expressions are not allowed in {functionName}. "
      ++ "Please use the agg() method instead."))
  else .ok ()

mutual

/-- `_validate_groupby_expr`: here the whole tree is inspected. -/
def validateGroupbyExpr (sess : Session A) : LogicalExpr A → Except PyException Unit
  | .sort e asc nl => .error (.planError
      s!"Sort expression: {(LogicalExpr.sort e asc nl).toString sess} cannot be used in the group by clause.")
  | .column _ => .ok ()
  | .alias e _ => validateGroupbyExpr sess e
  | .not e => validateGroupbyExpr sess e
  | .boolean l r _ => do
    validateGroupbyExpr sess l
    validateGroupbyExpr sess r
  | .other cls a es =>
    if cls.isAggregate then .error (.planError
      s!"Aggregate function: {(LogicalExpr.other cls a es).toString sess} cannot be used in the group by clause.")
    else validateGroupbyExprs sess es

def validateGroupbyExprs (sess : Session A) : List (LogicalExpr A) → Except PyException Unit
  | [] => .ok ()
  | e :: es => do
    validateGroupbyExpr sess e
    validateGroupbyExprs sess es

end

/-- `_validate_schema`: column names are unique. The message goes on with the duplicates in set order,
    which is not determined. -/
def validateSchema (s : Schema) : Except PyException Schema :=
  if s.columnNames.Nodup then .ok s
  else .error (.planError "Duplicate column names found")

/-- `Filter.__init__` over an input with schema `s`: the predicate is scalar and boolean, and the schema
    is the input's. -/
def buildFilter (sess : Session A) (s : Schema) (predicate : LogicalExpr A) : Except PyException Schema := do
  validateScalarExpr predicate "filter"
  let actual ← predicate.dataType sess s
  if actual = .booleanType then validateSchema s
  else throw (.planError (s!"Filter predicate must return a boolean value, but got {actual}. "
    ++ "Examples of valid filters:\n- df.filter(col('age') > 18)\n- df.filter(col('status') == 'active')\n"
    ++ "- df.filter(col('is_valid'))"))

/-- The type a schema gives a column name, as the dictionaries of `Union._build_schema` do. -/
def Schema.typeOf? (s : Schema) (n : String) : Option DataType :=
  (s.find? (fun f => f.name == n)).map ColumnField.dataType

/-- Do two schemas have the same columns with the same types, whatever their order? -/
def Schema.sameFields (s t : Schema) : Bool :=
  s.all (fun f => t.typeOf? f.name == s.typeOf? f.name) &&
    t.all (fun f => s.typeOf? f.name == t.typeOf? f.name)

/-- The comparison of the later inputs with the first one. The message keeps its first line; the rest
    prints both schemas. -/
def checkUnion (first : Schema) : Nat → List Schema → Except PyException Unit
  | _, [] => .ok ()
  | i, t :: rest =>
    if first.sameFields t then checkUnion first (i + 1) rest
    else if t.columnNames.all (· ∈ first.columnNames) && first.columnNames.all (· ∈ t.columnNames) then
      .error (.planError s!"Cannot union DataFrames: DataFrame #{i} has incompatible column types.")
    else
      .error (.planError
        s!"Cannot union DataFrames: DataFrame #{i} has different columns than DataFrame #0.")

/-- `Union._build_schema`. -/
def buildUnion : List Schema → Except PyException Schema
  | [] => .error (.indexError "list index out of range")
  | s :: rest => do
    checkUnion s 1 rest
    pure s

/-- The names of the plain column references among join keys. -/
def joinColumnNames (on : List (LogicalExpr A)) : List String :=
  on.filterMap fun
    | .column n => some n
    | _ => none

/-- The `name` attribute, which only column references and aliases have. -/
def LogicalExpr.name? : LogicalExpr A → Option String
  | .column n => some n
  | .alias _ n => some n
  | _ => none

/-- The key-type check of `Join._build_schema`, over the pairs of keys. -/
def checkJoinKeys (sess : Session A) (ls rs : Schema) :
    List (LogicalExpr A × LogicalExpr A) → Except PyException Unit
  | [] => .ok ()
  | (l, r) :: keys => do
    let lt ← l.dataType sess ls
    let rt ← r.dataType sess rs
    if lt = rt then checkJoinKeys sess ls rs keys
    else match l.name?, r.name? with
      | some ln, some rn => throw (.typeMismatchError
          (s!"Join condition: Cannot compare '{ln}' ({lt}) with '{rn}' ({rt}). "
            ++ "Join on equality comparison requires the same type on both sides."))
      | _, _ => throw (.attributeError "object has no attribute 'name'")

/-- `Join._build_schema`: key columns that are plain columns on both sides appear once. -/
def buildJoin (sess : Session A) (leftOn rightOn : List (LogicalExpr A)) (how : JoinType)
    (ls rs : Schema) : Except PyException Schema := do
  for e in leftOn do validateScalarExpr e "join"
  for e in rightOn do validateScalarExpr e "join"
  checkJoinKeys sess ls rs (leftOn.zip rightOn)
  let shared (n : String) : Bool := n ∈ joinColumnNames leftOn && n ∈ joinColumnNames rightOn
  match how with
  | .cross => pure (ls ++ rs)
  | .full => pure (ls ++ rs)
  | .right => pure (ls.filter (fun f => !shared f.name) ++ rs)
  | .left => pure (ls ++ rs.filter (fun f => !shared f.name))
  | .inner => pure (ls ++ rs.filter (fun f => !shared f.name))

/-- `Aggregate.__init__` and its `_build_schema`. -/
def buildAggregate (sess : Session A) (groupExprs aggExprs : List (LogicalExpr A)) (s : Schema) :
    Except PyException Schema := do
  for e in aggExprs do
    match e with
    | .alias inner _ =>
      if inner.isAggregate then pure ()
      else throw (.planError s!"Expression {e.toString sess} is not an aggregation")
    | _ => throw (.attributeError "object has no attribute 'expr'")
  for e in groupExprs do validateGroupbyExpr sess e
  let groupFields ← groupExprs.mapM (LogicalExpr.toColumnField sess s)
  let aggFields ← aggExprs.mapM (LogicalExpr.toColumnField sess s)
  for e in aggExprs do sess.checkGroupContext groupExprs e
  pure (groupFields ++ aggFields)

/-- `Explode._build_schema`: the exploded column gets its element type, in place or appended. -/
def buildExplode (sess : Session A) (expr : LogicalExpr A) (s : Schema) : Except PyException Schema := do
  validateScalarExpr expr "explode"
  let f ← expr.toColumnField sess s
  match f.dataType with
  | .arrayType t =>
    let fields := s.map (fun g => if g.name = f.name then ⟨g.name, t⟩ else g)
    pure (if f.name ∈ s.columnNames then fields else fields ++ [⟨f.name, t⟩])
  | t => throw (.valueError
      s!"Explode operator expected an array column for field {f.name}, but received {t} instead.")

/-- `ExplodeWithIndex._build_schema`. A missing value name reaches `ColumnField`, which rejects it. -/
def buildExplodeWithIndex (sess : Session A) (expr : LogicalExpr A) (indexName : String)
    (valueName : Option String) (s : Schema) : Except PyException Schema := do
  validateScalarExpr expr "explode_with_index"
  let f ← expr.toColumnField sess s
  match f.dataType, valueName with
  | .arrayType t, some v =>
    let expand (g : ColumnField) : List ColumnField :=
      if g.name = f.name then (if v ≠ g.name then [g, ⟨v, t⟩] else [⟨v, t⟩]) else [g]
    let fields := ⟨indexName, .integerType⟩ :: s.flatMap expand
    pure (if f.name ∈ s.columnNames then fields else fields ++ [⟨v, t⟩])
  | .arrayType _, none => throw (.valueError "ColumnField name must be a string")
  | t, _ => throw (.valueError
      s!"ExplodeWithIndex operator expected an array column for field {f.name}, but received {t} instead.")

/-- `Unnest._build_schema`: each named struct column is replaced by its fields. -/
def buildUnnest (names : List String) : Schema → Except PyException Schema
  | [] => .ok []
  | f :: s => do
    let fields ← if f.name ∈ names then
        match f.dataType with
        | .structType fs => pure (fs.map (fun g => ⟨g.1, g.2⟩))
        | t => throw (.valueError
            s!"Unnest operator expected a struct column for field {f.name}, but received {t} instead.")
      else pure [f]
    let rest ← buildUnnest names s
    pure (fields ++ rest)

/-- The constructor of a non-source class over inputs with the given schemas. -/
def buildSchema (sess : Session A) (op : PlanOp A) (inputs : List Schema) : Except PyException Schema := do
  let built ← match op, inputs with
    | .projection es, [s] => do
      for e in es do validateScalarExpr e "projection"
      es.mapM (LogicalExpr.toColumnField sess s)
    | .union, ss => buildUnion ss
    | .limit _, [s] => pure s
    | .sort _, [s] => pure s
    | .join leftOn rightOn how, [ls, rs] => buildJoin sess leftOn rightOn how ls rs
    | .aggregate groupExprs aggExprs, [s] => buildAggregate sess groupExprs aggExprs s
    | .explode e _, [s] => buildExplode sess e s
    | .explodeWithIndex e indexName valueName _, [s] =>
      buildExplodeWithIndex sess e indexName valueName s
    | .dropDuplicates _, [s] => pure s
    | .unnest names, [s] => buildUnnest names s
    | .fileSink _, [s] => pure s
    | .tableSink _, [s] => pure s
    | .sql .., ss => sess.planSchema op ss
    | .semanticJoin .., [_, _] => sess.planSchema op inputs
    | .semanticSimilarityJoin .., [_, _] => sess.planSchema op inputs
    | .semanticCluster .., [_] => sess.planSchema op inputs
    | _, _ => throw (.valueError "wrong number of children")
  validateSchema built

namespace LogicalPlan

/-! ## Rebuilding a node -/

/-- The schema of a rebuilt node: a source must have no children and keeps its stored schema; any other class
    re-runs its constructor over the new children. -/
def rebuildSchema (sess : Session A) (op : PlanOp A) (stored : Schema) (children : List (LogicalPlan A)) :
    Except PyException Schema :=
  if op.isSource then
    if children.isEmpty then validateSchema stored
    else throw (.internalError "source must have no children")
  else buildSchema sess op (children.map schema)

/-- `with_children` of a class other than `Filter`. -/
def withChildren (sess : Session A) (op : PlanOp A) (stored : Schema) (cache : Option CacheInfo)
    (children : List (LogicalPlan A)) : Except PyException (LogicalPlan A) := do
  let s ← rebuildSchema sess op stored children
  pure (.node op children s (if op.keepsCacheInfo then cache else none))

/-- `Filter.from_session_state`; a fresh node has no cache key. -/
def mkFilter (sess : Session A) (input : LogicalPlan A) (predicate : LogicalExpr A)
    (cache : Option CacheInfo := none) : Except PyException (LogicalPlan A) := do
  let s ← buildFilter sess input.schema predicate
  pure (.filter input predicate s cache)

/-! ## Accepted plans -/

mutual

/-- Every node of the plan passed its constructor's checks and stores the schema they computed. -/
def Accepted (sess : Session A) : LogicalPlan A → Prop
  | .filter input predicate s _ => Accepted sess input ∧ buildFilter sess input.schema predicate = .ok s
  | .node op children s _ =>
    AcceptedAll sess children ∧
      (if op.isSource then children = [] ∧ validateSchema s = .ok s
       else buildSchema sess op (children.map schema) = .ok s)

def AcceptedAll (sess : Session A) : List (LogicalPlan A) → Prop
  | [] => True
  | p :: ps => Accepted sess p ∧ AcceptedAll sess ps

end

mutual

/-- A property of every filter predicate of the plan. -/
def AllPredicates (P : LogicalExpr A → Prop) : LogicalPlan A → Prop
  | .filter input predicate _ _ => AllPredicates P input ∧ P predicate
  | .node _ children _ _ => AllPredicatesList P children

def AllPredicatesList (P : LogicalExpr A → Prop) : List (LogicalPlan A) → Prop
  | [] => True
  | p :: ps => AllPredicates P p ∧ AllPredicatesList P ps

end

/-! ## Meaning of a plan -/

end LogicalPlan

/-- An interpretation: what each operator does to the row lists of its inputs, and the truth value of each
    leaf predicate on a row. -/
structure Interp (A Row : Type) where
  op : PlanOp A → List (List Row) → List Row
  leaf : LogicalExpr A → Row → Kleene.Truth

namespace LogicalPlan

mutual

/-- The rows of a plan, in order. A filter keeps the rows on which its predicate is true. -/
def denote {Row : Type} (I : Interp A Row) : LogicalPlan A → List Row
  | .filter input predicate _ _ => Kleene.select (predicate.meaning I.leaf) (denote I input)
  | .node op children _ _ => I.op op (denoteAll I children)

def denoteAll {Row : Type} (I : Interp A Row) : List (LogicalPlan A) → List (List Row)
  | [] => []
  | p :: ps => denote I p :: denoteAll I ps

end

@[simp] theorem denote_filter {Row : Type} (I : Interp A Row) (input : LogicalPlan A)
    (predicate : LogicalExpr A) (s : Schema) (c : Option CacheInfo) :
    denote I (.filter input predicate s c)
      = Kleene.select (predicate.meaning I.leaf) (denote I input) := rfl

/-- Two plans mean the same when every interpretation gives them the same rows in the same order. -/
def Equivalent (p q : LogicalPlan A) : Prop :=
  ∀ (Row : Type) (I : Interp A Row), denote I p = denote I q

/-! ## Facts about accepted filters -/

variable {s : Schema}

/-- A row-wise boolean predicate passes the checks of a filter. -/
theorem buildFilter_ok {sess : Session A} {e : LogicalExpr A}
    (hrow : e.rowwise = true) (htype : e.dataType sess s = .ok .booleanType)
    (hs : validateSchema s = .ok s) : buildFilter sess s e = .ok s := by
  obtain ⟨hagg, hsort⟩ := LogicalExpr.not_aggregate_of_rowwise hrow
  simp [buildFilter, validateScalarExpr, hagg, hsort, htype, hs]

/-- A schema that passes its check is returned as it is. -/
theorem validateSchema_inv {s' : Schema} (h : validateSchema s = .ok s') :
    s' = s ∧ validateSchema s = .ok s := by
  have hs := h
  rw [validateSchema, Except.require_eq_ok] at h
  obtain ⟨-, hss⟩ := h
  cases hss
  exact ⟨rfl, hs⟩

/-- An accepted filter has a boolean predicate and its input's schema. -/
theorem buildFilter_inv {sess : Session A} {s' : Schema} {e : LogicalExpr A}
    (h : buildFilter sess s e = .ok s') :
    e.dataType sess s = .ok .booleanType ∧ validateSchema s = .ok s ∧ s' = s := by
  simp only [buildFilter, Except.bind_eq_ok, Except.throw_eq_error, Except.require_eq_ok] at h
  obtain ⟨-, -, t, ht, rfl, hs⟩ := h
  obtain ⟨hss, hv⟩ := validateSchema_inv hs
  exact ⟨ht, hv, hss⟩

end LogicalPlan

end Fenic
