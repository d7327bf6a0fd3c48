import Fenic.Lib.Rows
import Fenic.Mcp.TypeInference

/-!
# `Mcp.Binder` — tools over parameterized plans

A plan with placeholders is stored with a tool. A call of the tool validates its arguments with a model that is made of the
tool, copies the plan, and puts literals in the places of the placeholders of the copy.

Plans and expressions are objects with attributes, which the binder walks without knowing their classes. `children()` and
`exprs()` of every class list the expressions that its attributes hold, so that the walker finds what is in the attributes.

The walk puts an attribute in the place of each placeholder and leaves the rest as it is: it is a substitution, which fails
when one of the placeholders has nothing to stand for it (`LogicalPlan.transform_eq_ok`). What a substitution does is
determined by what it does to the placeholders of the plan.
-/

namespace Fenic

namespace Mcp

/-! ## Plans -/

inductive ContainerType where
  | list
  | tuple
  | set

/-- What an attribute holds. The classes of literals stand apart from the other classes of expressions. -/
inductive Attr where
  /-- `UnresolvedLiteralExpr`. -/
  | placeholder (dataType : DataType) (parameterName : String)
  /-- `LiteralExpr`. -/
  | literal (literal : PyObj) (dataType : DataType)
  | expr (cls : String) (attrs : List (String × Attr))
  | dict (entries : List (String × Attr))
  | container (containerType : ContainerType) (items : List Attr)
  | other (repr : String)

/-- A node with its attributes and `children()`. -/
inductive LogicalPlan where
  | node (cls : String) (attrs : List (String × Attr)) (children : List LogicalPlan)

/-- A data type and a parameter name. -/
abbrev Placeholder := DataType × String

namespace Attr

mutual

/-- The placeholders that `find_expressions` finds. -/
def placeholders : Attr → List Placeholder
  | .placeholder t name => [(t, name)]
  | .literal .. => []
  | .expr _ attrs => entryPlaceholders attrs
  | .dict entries => entryPlaceholders entries
  | .container _ items => itemPlaceholders items
  | .other _ => []

def entryPlaceholders : List (String × Attr) → List Placeholder
  | [] => []
  | (_, a) :: entries => placeholders a ++ entryPlaceholders entries

def itemPlaceholders : List Attr → List Placeholder
  | [] => []
  | a :: items => placeholders a ++ itemPlaceholders items

end

mutual

/-- `_transform_value`, with what `_transform_expr` puts in the place of a placeholder. -/
def transform (resolve : Placeholder → Except McpError Attr) : Attr → Except McpError Attr
  | .placeholder t name => resolve (t, name)
  | .literal value t => .ok (.literal value t)
  | .expr cls attrs => (transformEntries resolve attrs).map (.expr cls)
  | .dict entries => (transformEntries resolve entries).map .dict
  | .container containerType items => (transformItems resolve items).map (.container containerType)
  | .other repr => .ok (.other repr)

def transformEntries (resolve : Placeholder → Except McpError Attr) :
    List (String × Attr) → Except McpError (List (String × Attr))
  | [] => .ok []
  | (key, a) :: entries => do
    let b ← transform resolve a
    let rest ← transformEntries resolve entries
    pure ((key, b) :: rest)

def transformItems (resolve : Placeholder → Except McpError Attr) : List Attr → Except McpError (List Attr)
  | [] => .ok []
  | a :: items => do
    let b ← transform resolve a
    let rest ← transformItems resolve items
    pure (b :: rest)

end

end Attr

namespace LogicalPlan

mutual

/-- The placeholders of a plan, as `collect_unresolved_parameters` and `bind_tool` collect them. -/
def placeholders : LogicalPlan → List Placeholder
  | .node _ attrs children => Attr.entryPlaceholders attrs ++ childPlaceholders children

def childPlaceholders : List LogicalPlan → List Placeholder
  | [] => []
  | child :: children => placeholders child ++ childPlaceholders children

end

mutual

/-- `_transform_plan`. -/
def transform (resolve : Placeholder → Except McpError Attr) : LogicalPlan → Except McpError LogicalPlan
  | .node cls attrs children => do
    let attrs ← Attr.transformEntries resolve attrs
    let children ← transformChildren resolve children
    pure (.node cls attrs children)

def transformChildren (resolve : Placeholder → Except McpError Attr) :
    List LogicalPlan → Except McpError (List LogicalPlan)
  | [] => .ok []
  | child :: children => do
    let child ← transform resolve child
    let children ← transformChildren resolve children
    pure (child :: children)

end

end LogicalPlan

/-! ## Tools -/

namespace PyObj

def isNone : PyObj → Bool
  | .none => true
  | _ => false

/-- The number of a boolean, an integer or a finite float. -/
def number? : PyObj → Option Rat
  | .bool b => some (if b then 1 else 0)
  | .int n => some n
  | .float (.finite x) => some x
  | _ => Option.none

mutual

/-- `==`. Numbers of different types may be equal, and two dicts are equal in any order. -/
def pyEq : PyObj → PyObj → Bool
  | .none, .none => true
  | .str s, .str s' => s = s'
  | .datetime t, .datetime t' => t = t'
  | .date d, .date d' => d = d'
  | .float (.infinity negative), .float (.infinity negative') => negative = negative'
  | .list items, .list items' => pyEqItems items items'
  | .dict entries, .dict entries' => entries.length = entries'.length && pyEqEntries entries entries'
  | x, y =>
    match number? x, number? y with
    | some n, some m => n = m
    | _, _ => false

def pyEqItems : List PyObj → List PyObj → Bool
  | [], [] => true
  | x :: items, y :: items' => pyEq x y && pyEqItems items items'
  | _, _ => false

def pyEqEntries : List (String × PyObj) → List (String × PyObj) → Bool
  | [], _ => true
  | (key, x) :: entries, entries' =>
    (match entries'.lookup key with
      | some y => pyEq x y
      | Option.none => false) && pyEqEntries entries entries'

end

/-- `isinstance(value, type(default))`, for the types of parameters. -/
def isInstanceOfTypeOf : PyObj → PyObj → Bool
  | .bool _, .bool _ => true
  | .bool _, .int _ => true
  | .int _, .int _ => true
  | .float _, .float _ => true
  | .str _, .str _ => true
  | .list _, .list _ => true
  | .dict _, .dict _ => true
  | _, _ => false

/-- A value that may be `None`. -/
def ofOption : Option ToolParameterType → PyObj
  | some value => value.val
  | Option.none => .none

end PyObj

/-- `ToolParam`, as its validator leaves it: with a default value it has a default. -/
structure ToolParam where
  name : String
  description : String
  allowedValues : Option (List ToolParameterType)
  hasDefault : Bool
  defaultValue : Option ToolParameterType
  hasDefault_of_value : defaultValue.isSome → hasDefault = true

/-- `BoundToolParam`. -/
structure BoundToolParam where
  name : String
  description : String
  dataType : DataType
  required : Bool
  hasDefault : Bool
  defaultValue : Option ToolParameterType
  allowedValues : Option (List ToolParameterType)

/-- `UserDefinedTool`. The view is stored elsewhere. -/
structure UserDefinedTool where
  name : String
  description : String
  params : List BoundToolParam
  maxResultLimit : Int

/-- The checks on the allowed values of one parameter, and the bound parameter. -/
def bindParam (param : ToolParam) (dataType : DataType) : Except McpError BoundToolParam := do
  match param.allowedValues, param.hasDefault, param.defaultValue with
  | some allowed, true, some default =>
    if !allowed.any (fun value => PyObj.pyEq default.val value.val) then
      throw (.planError "Default value is not in the allowed values")
    if !allowed.all (fun value => value.val.isInstanceOfTypeOf default.val) then
      throw (.planError "Allowed values must all be the same type as the default value")
  | _, _, _ => pure ()
  pure ⟨param.name, param.description, dataType, !param.hasDefault, param.hasDefault, param.defaultValue,
    param.allowedValues⟩

/-- `bind_tool`. The messages leave out the Python forms of values and sets. -/
def bindTool (name description : String) (params : List ToolParam) (resultLimit : Int) (query : LogicalPlan) :
    Except McpError UserDefinedTool := do
  let unresolved := query.placeholders
  if !unresolved.all (fun p => unresolved.all fun q => p.2 ≠ q.2 || p.1 = q.1) then
    throw (.planError
      "All unresolved expressions with the same parameter name must have the same configuration values")
  let resolved ← (Rows.uniqueBy Prod.snd unresolved).mapM fun p =>
    match params.reverse.find? (fun param => param.name = p.2) with
    | some param => bindParam param p.1
    | none => throw (.planError "Tool does not have ToolParam(s) registered for the following placeholders")
  pure ⟨name, description, resolved, resultLimit⟩

/-! ## Validation -/

/-- A field of the validation model. A field without a default is required. -/
structure ModelField where
  name : String
  pyType : PyType
  optional : Bool
  default : Option PyObj

/-- What pydantic does with fields and values. Not every parameter has a field: a name may not start with an underscore, and
    on some versions the values of an optional field must be hashable. `None` has none of the types of fields. -/
structure Pydantic where
  accepts : BoundToolParam → Bool
  coerce : PyType → PyObj → Option PyObj
  coerce_not_none : ∀ t v w, coerce t v = some w → w.isNone = false

/-- The Python type of the field of a parameter. -/
def pyTypeOf (param : BoundToolParam) : Except McpError PyType :=
  match param.allowedValues, param.dataType with
  | some (value :: values), .arrayType _ => .ok (.listOfLiteral (value :: values))
  | some (value :: values), _ => .ok (.literal (value :: values))
  | _, dataType => inferPytypeFromDtype dataType

def modelField (pydantic : Pydantic) (param : BoundToolParam) : Except McpError ModelField := do
  let pyType ← pyTypeOf param
  if !pydantic.accepts param then throw (.typeError "The field cannot be made")
  pure ⟨param.name, pyType, param.hasDefault,
    if param.hasDefault then some (PyObj.ofOption param.defaultValue) else none⟩

def tableFormatField : ModelField := ⟨"table_format", .tableFormat, false, some (.str "markdown")⟩

def limitField (tool : UserDefinedTool) : ModelField := ⟨"limit", .int, false, some (.int tool.maxResultLimit)⟩

/-- `model_fields[name] = ...`. -/
def setField (fields : List ModelField) (field : ModelField) : List ModelField :=
  if fields.any fun f => f.name = field.name then fields.map fun f => if f.name = field.name then field else f
  else fields ++ [field]

/-- `create_pydantic_model_for_tool`. -/
def createPydanticModelForTool (pydantic : Pydantic) (tool : UserDefinedTool) : Except McpError (List ModelField) := do
  let fields ← tool.params.mapM (modelField pydantic)
  pure ((fields ++ [tableFormatField, limitField tool]).foldl setField [])

/-- The value of a field. -/
def ModelField.validate (pydantic : Pydantic) (arguments : List (String × PyObj)) (field : ModelField) : Option PyObj :=
  match arguments.lookup field.name with
  | none => field.default
  | some value => if field.optional && value.isNone then some .none else pydantic.coerce field.pyType value

/-- `model_validate(arguments).model_dump(exclude_none=True)`. -/
def payload (pydantic : Pydantic) (fields : List ModelField) (arguments : List (String × PyObj)) :
    Option (List (String × PyObj)) :=
  (fields.mapM fun (field : ModelField) => (field.validate pydantic arguments).map fun value => (field.name, value)).map
    (List.filter fun entry => !entry.2.isNone)

/-! ## Binding -/

/-- `tool_configs_by_name.get(name)`. -/
def toolConfig (toolParams : List BoundToolParam) (name : String) : Option BoundToolParam :=
  toolParams.reverse.find? fun param => param.name = name

/-- What `_transform_expr` puts in the place of a placeholder. -/
def resolvePlaceholder (params : List (String × PyObj)) (toolParams : List BoundToolParam) (p : Placeholder) :
    Except McpError Attr :=
  match params.lookup p.2 with
  | none =>
    match toolConfig toolParams p.2 with
    | none => .error (.planError ("Missing parameter values for placeholders: " ++ p.2))
    | some param =>
      if param.hasDefault then .ok (.literal (PyObj.ofOption param.defaultValue) p.1)
      else .error (.planError ("Parameter '" ++ p.2 ++ "' was not provided and has no default value." ++
        "Either provide a value for the parameter or add a default value to the tool parameter."))
  | some value =>
    match inferDtypeFromPyobj p.2 value with
    | .error (.typeInferenceError message) =>
      .error (.planError ("Failed to infer type for parameter '" ++ p.2 ++ "': " ++ message))
    | .error e => .error e
    | .ok inferred =>
      if inferred = p.1 then .ok (.literal value p.1)
      else .error (.typeMismatchError ("Parameter '" ++ p.2 ++ "' has incompatible type. " ++
        s!"Expected {p.1}, got {inferred}."))

/-- The placeholders that have neither a value nor a default. -/
def missingWithNoDefaults (params : List (String × PyObj)) (toolParams : List BoundToolParam)
    (unresolved : List Placeholder) : List String :=
  (unresolved.map Prod.snd).dedup.filter fun name =>
    (params.lookup name).isNone && !((toolConfig toolParams name).any BoundToolParam.hasDefault)

/-! ## What the walk of the binder does -/

variable {resolve : Placeholder → Except McpError Attr} {σ τ : Placeholder → Attr}

/-- What stands for a placeholder. One that nothing stands for is left. -/
def resolved (resolve : Placeholder → Except McpError Attr) (p : Placeholder) : Attr :=
  match resolve p with
  | .ok a => a
  | .error _ => .placeholder p.1 p.2

theorem resolved_of_ok {p : Placeholder} {a : Attr} (h : resolve p = .ok a) : resolved resolve p = a := by
  rw [resolved, h]

/-! ## Attributes -/

namespace Attr

mutual

/-- An attribute in the place of each placeholder. -/
def substitute (σ : Placeholder → Attr) : Attr → Attr
  | .placeholder t name => σ (t, name)
  | .literal value t => .literal value t
  | .expr cls attrs => .expr cls (substituteEntries σ attrs)
  | .dict entries => .dict (substituteEntries σ entries)
  | .container containerType items => .container containerType (substituteItems σ items)
  | .other repr => .other repr

def substituteEntries (σ : Placeholder → Attr) : List (String × Attr) → List (String × Attr)
  | [] => []
  | (key, a) :: entries => (key, substitute σ a) :: substituteEntries σ entries

def substituteItems (σ : Placeholder → Attr) : List Attr → List Attr
  | [] => []
  | a :: items => substitute σ a :: substituteItems σ items

end

mutual

/-- **The walk is a substitution** where all placeholders are resolved, and fails elsewhere. -/
theorem transform_eq_ok : ∀ (a : Attr) {b : Attr},
    transform resolve a = .ok b ↔
      (∀ p ∈ placeholders a, ∃ c, resolve p = .ok c) ∧ b = substitute (resolved resolve) a
  | .placeholder t name, b => by
    show resolve (t, name) = .ok b ↔ (∀ p ∈ [(t, name)], ∃ c, resolve p = .ok c) ∧ b = resolved resolve (t, name)
    constructor
    · intro h
      exact ⟨fun p hp => ⟨b, List.mem_singleton.mp hp ▸ h⟩, (resolved_of_ok h).symm⟩
    · rintro ⟨hall, rfl⟩
      obtain ⟨c, hc⟩ := hall (t, name) List.mem_cons_self
      rw [resolved_of_ok hc, hc]
  | .literal value t, b => by simp [transform, placeholders, substitute, eq_comm]
  | .expr cls attrs, b => by
    rw [transform, Except.map_eq_ok, substitute, placeholders]
    simp only [transformEntries_eq_ok attrs, and_assoc, exists_and_left, exists_eq_left, eq_comm]
  | .dict entries, b => by
    rw [transform, Except.map_eq_ok, substitute, placeholders]
    simp only [transformEntries_eq_ok entries, and_assoc, exists_and_left, exists_eq_left, eq_comm]
  | .container containerType items, b => by
    rw [transform, Except.map_eq_ok, substitute, placeholders]
    simp only [transformItems_eq_ok items, and_assoc, exists_and_left, exists_eq_left, eq_comm]
  | .other repr, b => by simp [transform, placeholders, substitute, eq_comm]

theorem transformEntries_eq_ok : ∀ (entries : List (String × Attr)) {entries' : List (String × Attr)},
    transformEntries resolve entries = .ok entries' ↔
      (∀ p ∈ entryPlaceholders entries, ∃ c, resolve p = .ok c) ∧
        entries' = substituteEntries (resolved resolve) entries
  | [], entries' => by simp [transformEntries, entryPlaceholders, substituteEntries, eq_comm]
  | (key, a) :: entries, entries' => by
    simp only [transformEntries, entryPlaceholders, substituteEntries, Except.bind_eq_ok, Except.pure_eq_ok,
      transform_eq_ok a, transformEntries_eq_ok entries, List.forall_mem_append, Except.ok.injEq]
    constructor
    · rintro ⟨b, ⟨ha, rfl⟩, rest, ⟨hrest, rfl⟩, rfl⟩
      exact ⟨⟨ha, hrest⟩, rfl⟩
    · rintro ⟨⟨ha, hrest⟩, rfl⟩
      exact ⟨_, ⟨ha, rfl⟩, _, ⟨hrest, rfl⟩, rfl⟩

theorem transformItems_eq_ok : ∀ (items : List Attr) {items' : List Attr},
    transformItems resolve items = .ok items' ↔
      (∀ p ∈ itemPlaceholders items, ∃ c, resolve p = .ok c) ∧ items' = substituteItems (resolved resolve) items
  | [], items' => by simp [transformItems, itemPlaceholders, substituteItems, eq_comm]
  | a :: items, items' => by
    simp only [transformItems, itemPlaceholders, substituteItems, Except.bind_eq_ok, Except.pure_eq_ok,
      transform_eq_ok a, transformItems_eq_ok items, List.forall_mem_append, Except.ok.injEq]
    constructor
    · rintro ⟨b, ⟨ha, rfl⟩, rest, ⟨hrest, rfl⟩, rfl⟩
      exact ⟨⟨ha, hrest⟩, rfl⟩
    · rintro ⟨⟨ha, hrest⟩, rfl⟩
      exact ⟨_, ⟨ha, rfl⟩, _, ⟨hrest, rfl⟩, rfl⟩

end

mutual

/-- Two substitutions do the same when they do the same to each placeholder. -/
theorem substitute_eq_iff : ∀ a : Attr,
    substitute σ a = substitute τ a ↔ ∀ p ∈ placeholders a, σ p = τ p
  | .placeholder t name => by simp [substitute, placeholders]
  | .literal value t => by simp [substitute, placeholders]
  | .expr cls attrs => by simp [substitute, placeholders, substituteEntries_eq_iff attrs]
  | .dict entries => by simp [substitute, placeholders, substituteEntries_eq_iff entries]
  | .container containerType items => by simp [substitute, placeholders, substituteItems_eq_iff items]
  | .other repr => by simp [substitute, placeholders]

theorem substituteEntries_eq_iff : ∀ entries : List (String × Attr),
    substituteEntries σ entries = substituteEntries τ entries ↔ ∀ p ∈ entryPlaceholders entries, σ p = τ p
  | [] => by simp [substituteEntries, entryPlaceholders]
  | (key, a) :: entries => by
    rw [substituteEntries, substituteEntries, entryPlaceholders, List.forall_mem_append, List.cons.injEq,
      Prod.mk.injEq, substitute_eq_iff a, substituteEntries_eq_iff entries]
    simp only [true_and]

theorem substituteItems_eq_iff : ∀ items : List Attr,
    substituteItems σ items = substituteItems τ items ↔ ∀ p ∈ itemPlaceholders items, σ p = τ p
  | [] => by simp [substituteItems, itemPlaceholders]
  | a :: items => by
    rw [substituteItems, substituteItems, itemPlaceholders, List.forall_mem_append, List.cons.injEq,
      substitute_eq_iff a, substituteItems_eq_iff items]

end

mutual

/-- The placeholders after a substitution are those of what it puts in. -/
theorem placeholders_substitute : ∀ a : Attr,
    placeholders (substitute σ a) = (placeholders a).flatMap fun p => placeholders (σ p)
  | .placeholder t name => by simp [substitute, placeholders]
  | .literal value t => by simp [substitute, placeholders]
  | .expr cls attrs => entryPlaceholders_substitute attrs
  | .dict entries => entryPlaceholders_substitute entries
  | .container containerType items => itemPlaceholders_substitute items
  | .other repr => by simp [substitute, placeholders]

theorem entryPlaceholders_substitute : ∀ entries : List (String × Attr),
    entryPlaceholders (substituteEntries σ entries) = (entryPlaceholders entries).flatMap fun p => placeholders (σ p)
  | [] => rfl
  | (key, a) :: entries => by
    rw [substituteEntries, entryPlaceholders, entryPlaceholders, List.flatMap_append, placeholders_substitute a,
      entryPlaceholders_substitute entries]

theorem itemPlaceholders_substitute : ∀ items : List Attr,
    itemPlaceholders (substituteItems σ items) = (itemPlaceholders items).flatMap fun p => placeholders (σ p)
  | [] => rfl
  | a :: items => by
    rw [substituteItems, itemPlaceholders, itemPlaceholders, List.flatMap_append, placeholders_substitute a,
      itemPlaceholders_substitute items]

end

end Attr

/-! ## Plans -/

namespace LogicalPlan

mutual

/-- An attribute in the place of each placeholder of a plan. -/
def substitute (σ : Placeholder → Attr) : LogicalPlan → LogicalPlan
  | .node cls attrs children => .node cls (Attr.substituteEntries σ attrs) (substituteChildren σ children)

def substituteChildren (σ : Placeholder → Attr) : List LogicalPlan → List LogicalPlan
  | [] => []
  | child :: children => substitute σ child :: substituteChildren σ children

end

mutual

theorem transform_eq_ok : ∀ (plan : LogicalPlan) {bound : LogicalPlan},
    transform resolve plan = .ok bound ↔
      (∀ p ∈ placeholders plan, ∃ c, resolve p = .ok c) ∧ bound = substitute (resolved resolve) plan
  | .node cls attrs children, bound => by
    simp only [transform, placeholders, substitute, Except.bind_eq_ok, Except.pure_eq_ok,
      Attr.transformEntries_eq_ok attrs, transformChildren_eq_ok children, List.forall_mem_append, Except.ok.injEq]
    constructor
    · rintro ⟨_, ⟨hattrs, rfl⟩, _, ⟨hchildren, rfl⟩, rfl⟩
      exact ⟨⟨hattrs, hchildren⟩, rfl⟩
    · rintro ⟨⟨hattrs, hchildren⟩, rfl⟩
      exact ⟨_, ⟨hattrs, rfl⟩, _, ⟨hchildren, rfl⟩, rfl⟩

theorem transformChildren_eq_ok : ∀ (children : List LogicalPlan) {children' : List LogicalPlan},
    transformChildren resolve children = .ok children' ↔
      (∀ p ∈ childPlaceholders children, ∃ c, resolve p = .ok c) ∧
        children' = substituteChildren (resolved resolve) children
  | [], children' => by simp [transformChildren, childPlaceholders, substituteChildren, eq_comm]
  | child :: children, children' => by
    simp only [transformChildren, childPlaceholders, substituteChildren, Except.bind_eq_ok, Except.pure_eq_ok,
      transform_eq_ok child, transformChildren_eq_ok children, List.forall_mem_append, Except.ok.injEq]
    constructor
    · rintro ⟨_, ⟨hchild, rfl⟩, _, ⟨hchildren, rfl⟩, rfl⟩
      exact ⟨⟨hchild, hchildren⟩, rfl⟩
    · rintro ⟨⟨hchild, hchildren⟩, rfl⟩
      exact ⟨_, ⟨hchild, rfl⟩, _, ⟨hchildren, rfl⟩, rfl⟩

end

mutual

theorem substitute_eq_iff : ∀ plan : LogicalPlan,
    substitute σ plan = substitute τ plan ↔ ∀ p ∈ placeholders plan, σ p = τ p
  | .node cls attrs children => by
    rw [substitute, substitute, placeholders, List.forall_mem_append, LogicalPlan.node.injEq,
      Attr.substituteEntries_eq_iff attrs, substituteChildren_eq_iff children]
    simp only [true_and]

theorem substituteChildren_eq_iff : ∀ children : List LogicalPlan,
    substituteChildren σ children = substituteChildren τ children ↔ ∀ p ∈ childPlaceholders children, σ p = τ p
  | [] => by simp [substituteChildren, childPlaceholders]
  | child :: children => by
    rw [substituteChildren, substituteChildren, childPlaceholders, List.forall_mem_append, List.cons.injEq,
      substitute_eq_iff child, substituteChildren_eq_iff children]

end

mutual

theorem placeholders_substitute : ∀ plan : LogicalPlan,
    placeholders (substitute σ plan) = (placeholders plan).flatMap fun p => Attr.placeholders (σ p)
  | .node cls attrs children => by
    rw [substitute, placeholders, placeholders, List.flatMap_append, Attr.entryPlaceholders_substitute attrs,
      childPlaceholders_substitute children]

theorem childPlaceholders_substitute : ∀ children : List LogicalPlan,
    childPlaceholders (substituteChildren σ children) =
      (childPlaceholders children).flatMap fun p => Attr.placeholders (σ p)
  | [] => rfl
  | child :: children => by
    rw [substituteChildren, childPlaceholders, childPlaceholders, List.flatMap_append,
      placeholders_substitute child, childPlaceholders_substitute children]

end

end LogicalPlan

end Mcp

end Fenic
