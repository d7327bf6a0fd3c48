import Mathlib
import Fenic.Mcp.Binder

/-!
# `Mcp.Binding` — when a call is bound completely

A call of a tool is bound completely when the validation model can be made, and what it makes of the arguments gives a plan
in which a literal of the declared type, with the supplied or the default value, stands for each placeholder. The binder
checks the type that it infers from a value against the declared type, so that this holds exactly for values from which the
declared type can be inferred (`bindsCompletely_iff`).
-/

namespace Fenic

namespace Mcp

/-! ## The fields of the model -/

theorem mem_setField {fields : List ModelField} {field g : ModelField} :
    g ∈ setField fields field ↔ g = field ∨ (g ∈ fields ∧ g.name ≠ field.name) := by
  unfold setField
  split
  next hany =>
      obtain ⟨f, hf, hname⟩ := List.any_eq_true.mp hany
      rw [List.mem_map]
      constructor
      · rintro ⟨f', hf', rfl⟩
        by_cases hname' : f'.name = field.name
        · rw [if_pos hname']
          exact .inl rfl
        · rw [if_neg hname']
          exact .inr ⟨hf', hname'⟩
      · rintro (rfl | ⟨hg, hne⟩)
        · exact ⟨f, hf, if_pos (of_decide_eq_true hname)⟩
        · exact ⟨g, hg, if_neg hne⟩
  next hany =>
      have hnone : ∀ f ∈ fields, f.name ≠ field.name := fun f hf hname =>
        hany (List.any_eq_true.mpr ⟨f, hf, decide_eq_true hname⟩)
      rw [List.mem_append, List.mem_singleton]
      constructor
      · rintro (hg | rfl)
        · exact .inr ⟨hg, hnone g hg⟩
        · exact .inl rfl
      · rintro (rfl | ⟨hg, -⟩)
        · exact .inr rfl
        · exact .inl hg

/-- The last field of each name counts. -/
theorem mem_foldl_setField {fields : List ModelField} {g : ModelField} :
    g ∈ fields.foldl setField [] ↔ fields.reverse.find? (fun f => f.name = g.name) = some g := by
  induction fields using List.reverseRecOn with
  | nil => simp
  | append_singleton fields field ih =>
    rw [List.foldl_append, List.foldl_cons, List.foldl_nil, mem_setField, ih, List.reverse_append,
      List.reverse_singleton, List.singleton_append]
    by_cases hname : field.name = g.name
    · rw [List.find?_cons_of_pos (by exact decide_eq_true hname)]
      constructor
      · rintro (rfl | ⟨-, hne⟩)
        · rfl
        · exact absurd hname.symm hne
      · intro h
        exact .inl (Option.some_inj.mp h).symm
    · rw [List.find?_cons_of_neg (by simpa using hname)]
      constructor
      · rintro (rfl | ⟨h, -⟩)
        · exact absurd rfl hname
        · exact h
      · exact fun h => .inr ⟨h, Ne.symm hname⟩

/-- What is found last on one side is found last on the other. -/
theorem find?_of_forall₂ {α β : Type} {R : α → β → Prop} {p : α → Bool} {q : β → Bool}
    (hpq : ∀ x y, R x y → p x = q y) {xs : List α} {ys : List β} (h : List.Forall₂ R xs ys) {x : α}
    (hx : xs.find? p = some x) : ∃ y, ys.find? q = some y ∧ R x y := by
  induction h with
  | nil => cases hx
  | @cons x' y' xs ys hxy _ ih =>
    by_cases hp : p x' = true
    · rw [List.find?_cons_of_pos hp] at hx
      cases hx
      exact ⟨y', List.find?_cons_of_pos (hpq _ _ hxy ▸ hp), hxy⟩
    · rw [List.find?_cons_of_neg hp] at hx
      obtain ⟨y, hy, hR⟩ := ih hx
      exact ⟨y, (List.find?_cons_of_neg (hpq _ _ hxy ▸ hp)).trans hy, hR⟩

section

variable {pydantic : Pydantic} {tool : UserDefinedTool} {fields : List ModelField}

variable {param : BoundToolParam}

theorem modelField_eq_ok {field : ModelField} :
    modelField pydantic param = .ok field ↔
      ∃ pyType, pyTypeOf param = .ok pyType ∧ pydantic.accepts param = true ∧
        field = ⟨param.name, pyType, param.hasDefault,
          if param.hasDefault then some (PyObj.ofOption param.defaultValue) else none⟩ := by
  rw [modelField, Except.bind_eq_ok]
  apply exists_congr
  intro pyType
  apply and_congr_right
  intro _
  cases pydantic.accepts param with
  | true => exact ⟨fun h => ⟨rfl, (Except.ok.inj h).symm⟩, fun h => congrArg Except.ok h.2.symm⟩
  | false =>
    constructor
    · intro h
      cases h
    · rintro ⟨h, -⟩
      cases h

/-- There is a validation model when each parameter has a field. -/
theorem createPydanticModelForTool_isOk :
    (∃ fields, createPydanticModelForTool pydantic tool = .ok fields) ↔
      ∀ param ∈ tool.params, pydantic.accepts param = true ∧ ∃ pyType, pyTypeOf param = .ok pyType := by
  constructor
  · rintro ⟨fields, h⟩ param hparam
    obtain ⟨declared, hdeclared, -⟩ := Except.bind_eq_ok.mp h
    obtain ⟨field, -, hfield⟩ := Rows.exists_right_of_forall₂ (Except.mapM_eq_ok.mp hdeclared) hparam
    obtain ⟨pyType, hpyType, haccepts, -⟩ := modelField_eq_ok.mp hfield
    exact ⟨haccepts, pyType, hpyType⟩
  · intro h
    have hfield : ∀ param ∈ tool.params, ∃ field, modelField pydantic param = .ok field ∧ True := by
      intro param hparam
      obtain ⟨haccepts, pyType, hpyType⟩ := h param hparam
      exact ⟨_, modelField_eq_ok.mpr ⟨pyType, hpyType, haccepts, rfl⟩, trivial⟩
    obtain ⟨declared, hdeclared, -⟩ := Except.mapM_ok hfield
    exact ⟨_, Except.bind_eq_ok.mpr ⟨declared, hdeclared, rfl⟩⟩

/-- The field of a parameter, unless it is one of the fields that every model has. -/
theorem exists_field (hfields : createPydanticModelForTool pydantic tool = .ok fields) {name : String}
    (hconfig : toolConfig tool.params name = some param) :
    ∃ field ∈ fields, field.name = name ∧
      (field = tableFormatField ∨ field = limitField tool ∨ modelField pydantic param = .ok field) := by
  obtain ⟨declared, hdeclared, hfields⟩ := Except.bind_eq_ok.mp hfields
  cases hfields
  -- the parameter and its field are the last of the name on both sides
  have hmatch : ∀ param field, modelField pydantic param = .ok field →
      decide (param.name = name) = decide (field.name = name) := by
    intro param field hfield
    obtain ⟨_, -, -, rfl⟩ := modelField_eq_ok.mp hfield
    rfl
  obtain ⟨field, hlast, hfield⟩ := find?_of_forall₂ hmatch
    (List.forall₂_reverse_iff.mpr (Except.mapM_eq_ok.mp hdeclared)) hconfig
  have hname : field.name = name := by simpa using List.find?_some hlast
  by_cases hlimit : name = "limit"
  · exact ⟨limitField tool, mem_foldl_setField.mpr (by simp), hlimit.symm, .inr (.inl rfl)⟩
  by_cases htable : name = "table_format"
  · refine ⟨tableFormatField, mem_foldl_setField.mpr ?_, htable.symm, .inl rfl⟩
    simp [tableFormatField, limitField]
  · refine ⟨field, mem_foldl_setField.mpr ?_, hname, .inr (.inr hfield)⟩
    rw [List.reverse_append, hname]
    simpa [tableFormatField, limitField, Ne.symm hlimit, Ne.symm htable] using hlast

/-- **A parameter that validation leaves out has a default.** -/
theorem hasDefault_of_absent (hfields : createPydanticModelForTool pydantic tool = .ok fields)
    {arguments values : List (String × PyObj)} (hvalues : payload pydantic fields arguments = some values)
    {name : String} (hconfig : toolConfig tool.params name = some param)
    (habsent : values.lookup name = none) : param.hasDefault = true := by
  obtain ⟨field, hmem, hname, hfield⟩ := exists_field hfields hconfig
  obtain ⟨entries, hentries, rfl⟩ := Option.map_eq_some_iff.mp hvalues
  obtain ⟨entry, hentry⟩ := Rows.mapM_isSome.mp ⟨entries, hentries⟩ field hmem
  obtain ⟨value, hvalue, rfl⟩ := Option.map_eq_some_iff.mp hentry
  -- the value of the field was left out because it is none
  have hnone : value.isNone = true := by
    have hin : (field.name, value) ∈ entries := by
      have := List.mem_map_of_mem (f := fun f => (ModelField.validate pydantic arguments f).map fun v => (f.name, v)) hmem
      rw [Rows.mapM_eq_some.mp hentries, hentry] at this
      simpa using this
    by_contra hsome
    have hkept : (field.name, value) ∈ entries.filter fun entry => !entry.2.isNone :=
      List.mem_filter.mpr ⟨hin, by simpa using hsome⟩
    have hne := List.lookup_eq_none_iff.mp habsent _ hkept
    simp [hname] at hne
  unfold ModelField.validate at hvalue
  rcases hfield with rfl | rfl | hfield
  · split at hvalue
    · cases hvalue
      cases hnone
    · exact absurd hnone (by rw [pydantic.coerce_not_none _ _ _ (by simpa [tableFormatField] using hvalue)]; simp)
  · split at hvalue
    · cases hvalue
      cases hnone
    · exact absurd hnone (by rw [pydantic.coerce_not_none _ _ _ (by simpa [limitField] using hvalue)]; simp)
  · obtain ⟨pyType, -, -, rfl⟩ := modelField_eq_ok.mp hfield
    by_contra hdefault
    rw [Bool.not_eq_true] at hdefault
    simp only [hdefault, Bool.false_and, Bool.false_eq_true, if_false] at hvalue
    split at hvalue
    · cases hvalue
    · rw [pydantic.coerce_not_none _ _ _ hvalue] at hnone
      cases hnone

end

/-! ## Placeholders -/

section

variable {values : List (String × PyObj)} {toolParams : List BoundToolParam} {p : Placeholder}

/-- A supplied value stands for a placeholder when its type is the declared type. -/
theorem resolvePlaceholder_of_value {value : PyObj} (hvalue : values.lookup p.2 = some value) {a : Attr} :
    resolvePlaceholder values toolParams p = .ok a ↔
      inferDtypeFromPyobj p.2 value = .ok p.1 ∧ a = .literal value p.1 := by
  simp only [resolvePlaceholder, hvalue]
  cases hinferred : inferDtypeFromPyobj p.2 value with
  | error e => cases e <;> simp
  | ok inferred =>
    show (if inferred = p.1 then _ else _) = _ ↔ _
    rw [Except.require_eq_ok, Except.ok.injEq, Except.ok.injEq, eq_comm (a := a)]

/-- A default stands for a placeholder without a value. -/
theorem resolvePlaceholder_of_default (hvalue : values.lookup p.2 = none) {param : BoundToolParam}
    (hconfig : toolConfig toolParams p.2 = some param) (hdefault : param.hasDefault = true) :
    resolvePlaceholder values toolParams p = .ok (.literal (PyObj.ofOption param.defaultValue) p.1) := by
  simp only [resolvePlaceholder, hvalue, hconfig, hdefault, if_true]

/-- The check before the walk finds nothing that the walk would not find. -/
theorem missing_of_resolved {unresolved : List Placeholder}
    (h : ∀ p ∈ unresolved, ∃ a, resolvePlaceholder values toolParams p = .ok a) :
    missingWithNoDefaults values toolParams unresolved = [] := by
  rw [missingWithNoDefaults, List.filter_eq_nil_iff]
  intro name hname hmissing
  obtain ⟨p, hp, rfl⟩ := List.mem_map.mp (List.mem_dedup.mp hname)
  obtain ⟨a, ha⟩ := h p hp
  obtain ⟨hvalue, hdefault⟩ := Bool.and_eq_true_iff.mp hmissing
  simp only [resolvePlaceholder, Option.isNone_iff_eq_none.mp hvalue] at ha
  split at ha
  · cases ha
  next param hconfig =>
      split at ha
      next hhas => simp [hconfig, hhas] at hdefault
      next => cases ha

end

/-- `bind_parameters` over the plans in memory: the plan at the address is copied to a new one, where it is changed. A copy
    that is given up is not kept. -/
def bindParameters (memory : List LogicalPlan) (address : Fin memory.length) (params : List (String × PyObj))
    (toolParams : List BoundToolParam) : List LogicalPlan × Except McpError Nat :=
  let planCopy := memory[address]
  let missing := missingWithNoDefaults params toolParams planCopy.placeholders
  if missing ≠ [] then
    (memory, .error (.planError ("Missing parameter values for placeholders: " ++
      ", ".intercalate (List.insertionSort (· ≤ ·) missing))))
  else
    match planCopy.transform (resolvePlaceholder params toolParams) with
    | .ok bound => (memory ++ [bound], .ok memory.length)
    | .error e => (memory, .error e)

/-- **What the binder does**: where all placeholders are resolved there is a new plan in memory. -/
theorem bindParameters_eq_ok {memory memory' : List LogicalPlan} {address : Fin memory.length} {address' : Nat}
    {values : List (String × PyObj)} {toolParams : List BoundToolParam} :
    bindParameters memory address values toolParams = (memory', .ok address') ↔
      (∀ p ∈ memory[address].placeholders, ∃ a, resolvePlaceholder values toolParams p = .ok a) ∧
        memory' = memory ++ [memory[address].substitute (resolved (resolvePlaceholder values toolParams))] ∧
        address' = memory.length := by
  unfold bindParameters
  constructor
  · intro h
    dsimp only at h
    split at h
    · cases h
    · split at h
      next bound hbound =>
          cases h
          obtain ⟨hall, rfl⟩ := (LogicalPlan.transform_eq_ok _).mp hbound
          exact ⟨hall, rfl, rfl⟩
      next => cases h
  · rintro ⟨hall, rfl, rfl⟩
    rw [if_neg (not_not.mpr (missing_of_resolved hall)), (LogicalPlan.transform_eq_ok _).mpr ⟨hall, rfl⟩]

/-- **No value is ever bound to a parameter of a type that is not inferred**, such as a double, or an array of doubles. -/
theorem bound_isInferable {memory memory' : List LogicalPlan} {address : Fin memory.length} {address' : Nat}
    {values : List (String × PyObj)} {toolParams : List BoundToolParam}
    (h : bindParameters memory address values toolParams = (memory', .ok address')) {p : Placeholder}
    (hp : p ∈ memory[address].placeholders) (hvalue : values.lookup p.2 ≠ none) : isInferable p.1 = true := by
  obtain ⟨hall, -, -⟩ := bindParameters_eq_ok.mp h
  obtain ⟨a, ha⟩ := hall p hp
  obtain ⟨value, hsome⟩ := Option.ne_none_iff_exists'.mp hvalue
  exact inferred_isInferable value p.2 p.1 ((resolvePlaceholder_of_value hsome).mp ha).1

theorem bindParam_name {param : ToolParam} {dataType : DataType} {bound : BoundToolParam}
    (h : bindParam param dataType = .ok bound) : bound.name = param.name := by
  unfold bindParam at h
  repeat' split at h
  all_goals cases h
  all_goals rfl

/-- Each placeholder of the plan has a parameter. -/
theorem toolConfig_of_bindTool {name description : String} {params : List ToolParam} {resultLimit : Int}
    {query : LogicalPlan} {tool : UserDefinedTool} (h : bindTool name description params resultLimit query = .ok tool)
    {p : Placeholder} (hp : p ∈ query.placeholders) : ∃ param, toolConfig tool.params p.2 = some param := by
  unfold bindTool at h
  dsimp only at h
  split at h
  · cases h
  obtain ⟨bound, hbound, htool⟩ := Except.bind_eq_ok.mp h
  cases htool
  obtain ⟨q, hq, hname⟩ := @Rows.exists_mem_uniqueBy _ _ _ Prod.snd _ _ hp
  obtain ⟨param, hparam, hq⟩ := Rows.exists_right_of_forall₂ (Except.mapM_eq_ok.mp hbound) hq
  have hparamName : param.name = p.2 := by
    split at hq
    next toolParam hfound =>
        have hfoundName : toolParam.name = q.2 := by simpa using List.find?_some hfound
        rw [bindParam_name hq, hfoundName, hname]
    next => cases hq
  show ∃ param, bound.reverse.find? (fun param => param.name = p.2) = some param
  rw [← Option.isSome_iff_exists, List.find?_isSome]
  exact ⟨param, List.mem_reverse.mpr hparam, decide_eq_true hparamName⟩

/-! ## Calls -/

/-- The default of the parameter of a name. -/
def declaredDefault (tool : UserDefinedTool) (name : String) : PyObj :=
  PyObj.ofOption ((toolConfig tool.params name).bind BoundToolParam.defaultValue)

/-- The value that a call supplies for a name, as validated, or the default. -/
def suppliedOrDefault (tool : UserDefinedTool) (arguments values : List (String × PyObj)) (name : String) : PyObj :=
  match arguments.lookup name, values.lookup name with
  | some _, some value => value
  | _, _ => declaredDefault tool name

/-- There is a validation model, and a call that passes it is bound: nothing in memory is changed, and the new plan is the
    stored one with a literal of the declared type, holding the supplied or the default value, for each placeholder. -/
def BindsCompletely (pydantic : Pydantic) (memory : List LogicalPlan) (address : Fin memory.length)
    (tool : UserDefinedTool) (arguments : List (String × PyObj)) : Prop :=
  ∃ fields, createPydanticModelForTool pydantic tool = .ok fields ∧
    ∀ values, payload pydantic fields arguments = some values →
      ∃ memory' address' bound, bindParameters memory address values tool.params = (memory', .ok address') ∧
        memory <+: memory' ∧ memory'[address']? = some bound ∧ bound.placeholders = [] ∧
        bound = memory[address].substitute fun p => .literal (suppliedOrDefault tool arguments values p.2) p.1

/-- The types that `infer_pytype_from_dtype` has a Python type for. -/
def hasPytype : DataType → Bool
  | .doubleType => false
  | .timestampType => false
  | _ => true

def BoundToolParam.hasAllowedValues (param : BoundToolParam) : Bool :=
  param.allowedValues.any fun values => !values.isEmpty

theorem pyTypeOf_isOk {param : BoundToolParam} :
    (∃ pyType, pyTypeOf param = .ok pyType) ↔
      param.hasAllowedValues = true ∨ hasPytype param.dataType = true := by
  obtain ⟨_, _, dataType, _, _, _, allowedValues⟩ := param
  rcases allowedValues with _ | (_ | ⟨value, values⟩)
  · cases dataType <;> simp [pyTypeOf, inferPytypeFromDtype, BoundToolParam.hasAllowedValues, hasPytype]
  · cases dataType <;> simp [pyTypeOf, inferPytypeFromDtype, BoundToolParam.hasAllowedValues, hasPytype]
  · cases dataType <;> simp [pyTypeOf, BoundToolParam.hasAllowedValues]

section

variable {pydantic : Pydantic} {memory : List LogicalPlan} {address : Fin memory.length} {tool : UserDefinedTool}
  {name description : String} {params : List ToolParam} {resultLimit : Int} {arguments : List (String × PyObj)}

/-- **Where a literal of the supplied or the default value stands for a placeholder.** -/
theorem resolvePlaceholder_eq_literal_iff {fields : List ModelField} {values : List (String × PyObj)}
    (hfields : createPydanticModelForTool pydantic tool = .ok fields)
    (hvalues : payload pydantic fields arguments = some values) {p : Placeholder} {param : BoundToolParam}
    (hconfig : toolConfig tool.params p.2 = some param) :
    resolvePlaceholder values tool.params p = .ok (.literal (suppliedOrDefault tool arguments values p.2) p.1) ↔
      ∀ value, values.lookup p.2 = some value → inferDtypeFromPyobj p.2 value = .ok p.1 ∧
        (arguments.lookup p.2 = none → value = declaredDefault tool p.2) := by
  cases hvalue : values.lookup p.2 with
  | none =>
    -- there is a default, which stands for the placeholder
    have hdefault := hasDefault_of_absent hfields hvalues hconfig hvalue
    rw [resolvePlaceholder_of_default hvalue hconfig hdefault]
    simp [suppliedOrDefault, hvalue, declaredDefault, hconfig]
  | some value =>
    rw [resolvePlaceholder_of_value hvalue]
    cases hargument : arguments.lookup p.2 with
    | none => simp [suppliedOrDefault, hargument, eq_comm]
    | some argument => simp [suppliedOrDefault, hargument, hvalue]

/-- **A call is bound completely** exactly when each parameter has a field in the model, and each value that the model has for
    a placeholder is supplied or the declared default, and of the declared type to `infer_dtype_from_pyobj`. -/
theorem bindsCompletely_iff (htool : bindTool name description params resultLimit memory[address] = .ok tool) :
    BindsCompletely pydantic memory address tool arguments ↔
      (∀ param ∈ tool.params, pydantic.accepts param = true ∧
        (param.hasAllowedValues = true ∨ hasPytype param.dataType = true)) ∧
      ∀ fields values, createPydanticModelForTool pydantic tool = .ok fields →
        payload pydantic fields arguments = some values →
          ∀ p ∈ memory[address].placeholders, ∀ value, values.lookup p.2 = some value →
            inferDtypeFromPyobj p.2 value = .ok p.1 ∧
              (arguments.lookup p.2 = none → value = declaredDefault tool p.2) := by
  have hmodel : (∃ fields, createPydanticModelForTool pydantic tool = .ok fields) ↔
      ∀ param ∈ tool.params, pydantic.accepts param = true ∧
        (param.hasAllowedValues = true ∨ hasPytype param.dataType = true) := by
    rw [createPydanticModelForTool_isOk]
    simp only [pyTypeOf_isOk]
  rw [← hmodel]
  constructor
  · rintro ⟨fields, hfields, hcalls⟩
    refine ⟨⟨fields, hfields⟩, fun fields' values hfields' hvalues p hp => ?_⟩
    cases hfields.symm.trans hfields'
    obtain ⟨param, hconfig⟩ := toolConfig_of_bindTool htool hp
    obtain ⟨memory', address', bound, hbind, -, hbound, -, hsubstitute⟩ := hcalls values hvalues
    obtain ⟨hall, rfl, rfl⟩ := bindParameters_eq_ok.mp hbind
    apply (resolvePlaceholder_eq_literal_iff hfields hvalues hconfig).mp
    -- the plan that the binder returns and the one of the contract agree on each placeholder
    rw [List.getElem?_concat_length, Option.some_inj] at hbound
    have hagree := (LogicalPlan.substitute_eq_iff _).mp (hbound.trans hsubstitute) p hp
    obtain ⟨a, ha⟩ := hall p hp
    rw [ha, ← hagree, resolved_of_ok ha]
  · rintro ⟨⟨fields, hfields⟩, hvalid⟩
    refine ⟨fields, hfields, fun values hvalues => ?_⟩
    have hresolve : ∀ p ∈ memory[address].placeholders, resolvePlaceholder values tool.params p =
        .ok (.literal (suppliedOrDefault tool arguments values p.2) p.1) := by
      intro p hp
      obtain ⟨param, hconfig⟩ := toolConfig_of_bindTool htool hp
      exact (resolvePlaceholder_eq_literal_iff hfields hvalues hconfig).mpr (hvalid fields values hfields hvalues p hp)
    have hbind := bindParameters_eq_ok.mpr ⟨fun p hp => ⟨_, hresolve p hp⟩, rfl, rfl⟩
    refine ⟨_, _, _, hbind, List.prefix_append _ _, List.getElem?_concat_length .., ?_, ?_⟩
    · rw [LogicalPlan.placeholders_substitute, List.flatMap_eq_nil_iff]
      intro p hp
      rw [resolved_of_ok (hresolve p hp)]
      rfl
    · exact (LogicalPlan.substitute_eq_iff _).mpr fun p hp => resolved_of_ok (hresolve p hp)

end

/-! ## A tool over an array -/

namespace BindingExamples

/-- `Filter(col("score").is_in(tool_param("scores", ArrayType(...))))` -/
def view (elementType : DataType) : LogicalPlan :=
  .node "Filter"
    [("_predicate", .expr "InExpr"
      [("expr", .expr "ColumnExpr" [("name", .other "score")]), ("other", .placeholder (.arrayType elementType) "scores")])]
    [.node "TableSource" [("_table_name", .other "games")] []]

def scoresParam : ToolParam := ⟨"scores", "The scores", none, false, none, by simp⟩

/-- The bound tool. -/
def scoresTool (elementType : DataType) : UserDefinedTool :=
  ⟨"by_score", "Games by score", [⟨"scores", "The scores", .arrayType elementType, true, false, none, none⟩], 100⟩

/-- The part of pydantic that these calls need. -/
def pydantic : Pydantic where
  accepts _ := true
  coerce
    | .list, .list items => some (.list items)
    | .int, .int n => some (.int n)
    | _, _ => none
  coerce_not_none t v w h := by
    split at h
    · cases h
      rfl
    · cases h
      rfl
    · cases h

theorem bindTool_view (elementType : DataType) :
    bindTool "by_score" "Games by score" [scoresParam] 100 (view elementType) = .ok (scoresTool elementType) := by
  simp [bindTool, view, scoresParam, scoresTool, LogicalPlan.placeholders, LogicalPlan.childPlaceholders,
    Attr.entryPlaceholders, Attr.placeholders, Rows.uniqueBy, bindParam]

/-- The arguments `[1, 2]`. -/
def arguments : List (String × PyObj) := [("scores", .list [.int 1, .int 2])]

def fields (elementType : DataType) : List ModelField :=
  [⟨"scores", .list, false, none⟩, tableFormatField, limitField (scoresTool elementType)]

/-- What the model makes of the arguments. -/
def values : List (String × PyObj) :=
  [("scores", .list [.int 1, .int 2]), ("table_format", .str "markdown"), ("limit", .int 100)]

theorem model_eq (elementType : DataType) :
    createPydanticModelForTool pydantic (scoresTool elementType) = .ok (fields elementType) := rfl

theorem payload_eq (elementType : DataType) : payload pydantic (fields elementType) arguments = some values := rfl

theorem inferred_eq : inferDtypeFromPyobj "scores" (.list [.int 1, .int 2]) = .ok (.arrayType .integerType) := by
  simp [inferDtypeFromPyobj, inferItems, findCommonSupertype, Except.map]

theorem integers_isInferable : isInferable (.arrayType .integerType) = true := by
  have hresolved : ∀ p ∈ (view .integerType).placeholders, ∃ a, resolvePlaceholder values [] p = .ok a := by
    intro p hp
    cases List.mem_singleton.mp hp
    exact ⟨_, (resolvePlaceholder_of_value rfl).mpr ⟨inferred_eq, rfl⟩⟩
  have hbound : bindParameters [view .integerType] ⟨0, by decide⟩ values [] = (_, .ok _) :=
    bindParameters_eq_ok.mpr ⟨hresolved, rfl, rfl⟩
  exact bound_isInferable hbound List.mem_cons_self (Option.some_ne_none _)

/-- For an array of integers the call is bound completely. -/
theorem integers_bindsCompletely :
    BindsCompletely pydantic [view .integerType] ⟨0, by decide⟩ (scoresTool .integerType) arguments := by
  apply (bindsCompletely_iff (bindTool_view .integerType)).mpr
  constructor
  · intro param hparam
    cases List.mem_singleton.mp hparam
    exact ⟨rfl, .inr rfl⟩
  · intro fields' values' hfields hvalues p hp value hvalue
    cases (model_eq .integerType).symm.trans hfields
    cases (payload_eq .integerType).symm.trans hvalues
    cases List.mem_singleton.mp hp
    cases hvalue
    exact ⟨inferred_eq, fun h => nomatch h⟩

/-- For an array of floats the model takes the same arguments, and the binder rejects them. -/
theorem floats_not_bindsCompletely :
    payload pydantic (fields .floatType) arguments = some values ∧
      bindTool "by_score" "Games by score" [scoresParam] 100 (view .floatType) = .ok (scoresTool .floatType) ∧
      ¬ BindsCompletely pydantic [view .floatType] ⟨0, by decide⟩ (scoresTool .floatType) arguments := by
  refine ⟨rfl, bindTool_view .floatType, ?_⟩
  rintro ⟨fields', hfields, hcalls⟩
  cases (model_eq .floatType).symm.trans hfields
  obtain ⟨memory', address', bound, hbind, -⟩ := hcalls values (payload_eq .floatType)
  obtain ⟨hall, -, -⟩ := bindParameters_eq_ok.mp hbind
  obtain ⟨a, ha⟩ := hall (.arrayType .floatType, "scores") List.mem_cons_self
  have hinferred := ((resolvePlaceholder_of_value rfl).mp ha).1
  rw [inferred_eq] at hinferred
  simp at hinferred

end BindingExamples

end Mcp

end Fenic
