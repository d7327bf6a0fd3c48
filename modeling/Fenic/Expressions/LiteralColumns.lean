import Mathlib
import Fenic.Mcp.TypeInference
import Fenic.Lib.Rows

/-!
# `Expressions.LiteralColumns` — the columns of literals and arrays

`_literal_to_polars_expr` builds lists by `concat_list`, which puts an argument into the list when it is no list, and its
items when it is one. What it is depends on the type of the argument alone, so that a list of lists loses a level, and a list
of scalars does not. `denotes_iff` and `convertArray_iff` say when the value is the one that was written.

`widened` is that value: an integer is a float where floats are asked for, and a field that a dict lacks is null.
-/

namespace Fenic

namespace Expressions

open Mcp

/-! ## The engine -/

/-- What a column of a primitive type holds when it is made of one value: `none` where the engine takes no such value, and
another value where it is rounded. Texts of timestamps can be brought to UTC. -/
structure LiteralEngine where
  hold : DataType → PyObj → Option PyObj
  utc : String → String
  scalar : ∀ t v x, hold t v = some x → ∀ items, x ≠ .list items

/-- An expression that has one value in all rows, and whether its type is a list. -/
structure LitExpr where
  isList : Bool
  value : PyObj

def isArrayType : DataType → Bool
  | .arrayType _ => true
  | _ => false

/-- The items that an argument gives to a concatenation; a null list has none. -/
def LitExpr.items? : LitExpr → Option (List PyObj)
  | ⟨false, x⟩ => some [x]
  | ⟨true, .list items⟩ => some items
  | ⟨true, _⟩ => none

/-- `pl.concat_list(elems)`, which is null where a list is. -/
def concatList (elems : List LitExpr) : LitExpr :=
  match elems.mapM LitExpr.items? with
  | some items => ⟨true, .list items.flatten⟩
  | none => ⟨true, .none⟩

/-- `pl.struct(fields)`, which needs a field. -/
def litStruct : List (String × PyObj) → Option LitExpr
  | [] => none
  | fields => some ⟨false, .dict fields⟩

/-! ## Literals -/

/-- `value.get(name)`. -/
def entryOf (entries : List (String × PyObj)) (name : String) : PyObj := (entries.lookup name).getD .none

/-- `isinstance(data_type, _PrimitiveType)`, timestamps apart. -/
def isPrimitive : DataType → Bool
  | .stringType => true
  | .integerType => true
  | .floatType => true
  | .doubleType => true
  | .booleanType => true
  | .dateType => true
  | _ => false

variable (E : LiteralEngine)

/-- The branches for values that are no collections. -/
def scalarToPolars (t : DataType) : PyObj → Option LitExpr
  | .none => some ⟨isArrayType t, .none⟩
  | v =>
    match t, v with
    | .timestampType, .datetime text => (E.hold .timestampType (.datetime (E.utc text))).map fun x => ⟨false, x⟩
    | t, v => if isPrimitive t then (E.hold t v).map fun x => ⟨false, x⟩ else none

mutual

/-- `_literal_to_polars_expr`. -/
def literalToPolars : DataType → PyObj → Option LitExpr
  | .arrayType elementType, v =>
    match v with
    | .none => some ⟨true, .none⟩
    | .list [] => some ⟨true, .list []⟩
    | .list items => (items.mapM fun item => literalToPolars elementType item).map concatList
    | _ => none
  | .structType fields, v =>
    match v with
    | .none => some ⟨false, .none⟩
    | .dict entries => (literalFields fields entries).bind litStruct
    | _ => none
  | t, v => scalarToPolars E t v

def literalFields : List (String × DataType) → List (String × PyObj) → Option (List (String × PyObj))
  | [], _ => some []
  | (name, t) :: fields, entries =>
    (literalToPolars t (entryOf entries name)).bind fun e =>
      (literalFields fields entries).map fun rest => (name, e.value) :: rest

end

/-! ## Values -/

/-- A value that is no collection, in a type. -/
def widenedScalar : DataType → PyObj → Option PyObj
  | _, .none => some .none
  | .booleanType, .bool b => some (.bool b)
  | .integerType, .int n => some (.int n)
  | .floatType, .int n => some (.float (.finite n))
  | .floatType, .float x => some (.float x)
  | .doubleType, .int n => some (.float (.finite n))
  | .doubleType, .float x => some (.float x)
  | .stringType, .str s => some (.str s)
  | .dateType, .date text => some (.date text)
  -- the same time, in UTC
  | .timestampType, .datetime text => some (.datetime (E.utc text))
  | _, _ => none

mutual

/-- The value in a type. -/
def widened : DataType → PyObj → Option PyObj
  | .arrayType elementType, v =>
    match v with
    | .none => some .none
    | .list items => (items.mapM fun item => widened elementType item).map .list
    | _ => none
  | .structType fields, v =>
    match v with
    | .none => some .none
    | .dict entries => (widenedFields fields entries).map .dict
    | _ => none
  | t, v => widenedScalar E t v

def widenedFields : List (String × DataType) → List (String × PyObj) → Option (List (String × PyObj))
  | [], _ => some []
  | (name, t) :: fields, entries =>
    (widened t (entryOf entries name)).bind fun x => (widenedFields fields entries).map fun rest => (name, x) :: rest

end

/-- The column has the value. -/
def Denotes (t : DataType) (v : PyObj) : Prop :=
  ∃ x, widened E t v = some x ∧ (literalToPolars E t v).map LitExpr.value = some x

mutual

/-- No list stands directly in a list, and no dict is there for a type without fields. -/
def unnested : DataType → PyObj → Bool
  | .arrayType elementType, .list items =>
    (items.isEmpty || !isArrayType elementType) && items.all fun item => unnested elementType item
  | .structType fields, .dict entries => !fields.isEmpty && unnestedFields fields entries
  | _, _ => true

def unnestedFields : List (String × DataType) → List (String × PyObj) → Bool
  | [], _ => true
  | (name, t) :: fields, entries => unnested t (entryOf entries name) && unnestedFields fields entries

end

/-- The engine holds the value as it is. -/
def holdsScalar (t : DataType) (v : PyObj) : Prop :=
  ∃ x, widenedScalar E t v = some x ∧ (scalarToPolars E t v).map LitExpr.value = some x

mutual

/-- Every scalar is held as it is. -/
def ScalarsHeld : DataType → PyObj → Prop
  | .arrayType elementType, v => v = .none ∨ ∃ items, v = .list items ∧ ∀ item ∈ items, ScalarsHeld elementType item
  | .structType fields, v => v = .none ∨ ∃ entries, v = .dict entries ∧ FieldsHeld fields entries
  | t, v => holdsScalar E t v

def FieldsHeld : List (String × DataType) → List (String × PyObj) → Prop
  | [], _ => True
  | (name, t) :: fields, entries => ScalarsHeld t (entryOf entries name) ∧ FieldsHeld fields entries

end

/-! ## Lists of scalars -/

variable {e : LitExpr}

theorem items?_of_notList (h : e.isList = false) : e.items? = some [e.value] := by
  obtain ⟨isList, value⟩ := e
  cases h
  rfl

theorem concatList_of_notList {elems : List LitExpr} (h : ∀ e ∈ elems, e.isList = false) :
    concatList elems = ⟨true, .list (elems.map LitExpr.value)⟩ := by
  have hitems : elems.mapM LitExpr.items? = some (elems.map fun e => [e.value]) := by
    rw [Rows.mapM_eq_some, List.map_map]
    exact List.map_congr_left fun e he => items?_of_notList (h e he)
  rw [concatList, hitems]
  show LitExpr.mk true (.list (elems.map fun e => [e.value]).flatten) = _
  rw [← List.flatMap_def, ← List.map_eq_flatMap]

theorem isList_concatList (elems : List LitExpr) : (concatList elems).isList = true := by
  unfold concatList
  split <;> rfl

variable {E}

variable {t : DataType} {v : PyObj}

theorem scalarToPolars_eq_some (h : scalarToPolars E t v = some e) :
    e.isList = isArrayType t ∧ ∀ items, e.value ≠ .list items := by
  unfold scalarToPolars at h
  split at h
  next =>
      cases h
      exact ⟨rfl, nofun⟩
  next =>
      split at h
      next =>
          obtain ⟨x, hx, rfl⟩ := Option.map_eq_some_iff.mp h
          exact ⟨rfl, E.scalar _ _ x hx⟩
      next =>
          split at h
          next hprimitive =>
              obtain ⟨x, hx, rfl⟩ := Option.map_eq_some_iff.mp h
              refine ⟨?_, E.scalar _ _ x hx⟩
              cases t <;> first | rfl | cases hprimitive
          next => cases h

/-- A column is a list when its type is one. -/
theorem isList_of_literal (h : literalToPolars E t v = some e) :
    e.isList = isArrayType t := by
  cases t with
  | arrayType elementType =>
    unfold literalToPolars at h
    split at h
    next => cases h; rfl
    next => cases h; rfl
    next =>
        obtain ⟨elems, -, rfl⟩ := Option.map_eq_some_iff.mp h
        exact isList_concatList elems
    next => cases h
  | structType fields =>
    unfold literalToPolars at h
    split at h
    next => cases h; rfl
    next =>
        obtain ⟨values, -, h⟩ := Option.bind_eq_some_iff.mp h
        cases values with
        | nil => cases h
        | cons field values => cases h; rfl
    next => cases h
  | _ => exact (scalarToPolars_eq_some h).1

variable {elementType : DataType} {items : List PyObj}

theorem denotes_items :
    (∃ xs elems, items.mapM (fun item => widened E elementType item) = some xs ∧
      items.mapM (fun item => literalToPolars E elementType item) = some elems ∧ elems.map LitExpr.value = xs) ↔
      ∀ item ∈ items, Denotes E elementType item := by
  constructor
  · rintro ⟨xs, elems, hxs, helems, heq⟩ item hitem
    obtain ⟨x, hx⟩ := Rows.mapM_isSome.mp ⟨xs, hxs⟩ item hitem
    refine ⟨x, hx, ?_⟩
    have hmap : items.map (fun item => (literalToPolars E elementType item).map LitExpr.value) =
        items.map fun item => widened E elementType item := by
      rw [Rows.mapM_eq_some.mp hxs, ← heq, List.map_map]
      have hvalues := congrArg (List.map (Option.map LitExpr.value)) (Rows.mapM_eq_some.mp helems)
      rw [List.map_map, List.map_map] at hvalues
      exact hvalues
    rw [← hx]
    exact List.map_inj_left.mp hmap item hitem
  · intro h
    obtain ⟨xs, hxs⟩ := Rows.mapM_isSome.mpr fun item hitem => (h item hitem).imp fun x hx => hx.1
    obtain ⟨elems, helems⟩ := Rows.mapM_isSome.mpr fun item hitem => by
      obtain ⟨x, -, hx⟩ := h item hitem
      obtain ⟨e, he, -⟩ := Option.map_eq_some_iff.mp hx
      exact ⟨e, he⟩
    refine ⟨xs, elems, hxs, helems, ?_⟩
    have hvalues := congrArg (List.map (Option.map LitExpr.value)) (Rows.mapM_eq_some.mp helems)
    rw [List.map_map, List.map_map] at hvalues
    have hmap : (elems.map LitExpr.value).map some = xs.map some := by
      rw [← Rows.mapM_eq_some.mp hxs, List.map_map]
      refine hvalues.symm.trans (List.map_congr_left fun item hitem => ?_)
      obtain ⟨x, hx, hliteral⟩ := h item hitem
      rw [hx]
      exact hliteral
    exact (List.map_injective_iff.mpr (Option.some_injective _)) hmap

/-! ## Lists of lists -/

/-- The items of a concatenation are items of one of its arguments. -/
theorem mem_concatList {elems : List LitExpr} (h : (concatList elems).value = .list items) {x : PyObj}
    (hx : x ∈ items) : ∃ e ∈ elems, ∃ part, e.items? = some part ∧ x ∈ part := by
  unfold concatList at h
  split at h
  next parts hparts =>
      cases h
      obtain ⟨part, hpart, hx⟩ := List.mem_flatten.mp hx
      have hmem : some part ∈ elems.map LitExpr.items? := Rows.mapM_eq_some.mp hparts ▸ List.mem_map_of_mem hpart
      obtain ⟨e, he, hitems⟩ := List.mem_map.mp hmem
      exact ⟨e, he, part, hitems, hx⟩
  next => cases h

/-- **No list is left in a list**: what is no array makes no list, and an array makes a list of what is none. -/
theorem items_notList : ∀ (t : DataType) (v : PyObj) (e : LitExpr), literalToPolars E t v = some e →
    (isArrayType t = false → ∀ items, e.value ≠ .list items) ∧
      ∀ items, e.value = .list items → ∀ x ∈ items, ∀ inner, x ≠ .list inner
  | .arrayType elementType, v, e, h => by
    refine ⟨nofun, fun items hvalue x hx inner hinner => ?_⟩
    unfold literalToPolars at h
    split at h
    next => cases h; cases hvalue
    next =>
        cases h
        cases hvalue
        cases hx
    next written _ =>
        obtain ⟨elems, helems, rfl⟩ := Option.map_eq_some_iff.mp h
        obtain ⟨elem, helem, part, hpart, hx⟩ := mem_concatList hvalue hx
        have hmem : some elem ∈ written.map fun item => literalToPolars E elementType item :=
          Rows.mapM_eq_some.mp helems ▸ List.mem_map_of_mem helem
        obtain ⟨item, -, hitem⟩ := List.mem_map.mp hmem
        obtain ⟨hscalar, hlist⟩ := items_notList elementType item elem hitem
        have htype := isList_of_literal hitem
        obtain ⟨isList, value⟩ := elem
        cases isList with
        | false =>
          cases hpart
          exact hscalar htype.symm inner ((List.mem_singleton.mp hx).symm.trans hinner)
        | true =>
          cases value with
          | list values =>
            cases hpart
            exact hlist _ rfl x hx inner hinner
          | _ => cases hpart
    next => cases h
  | .structType fields, v, e, h => by
    have hvalue : ∀ items, e.value ≠ .list items := by
      unfold literalToPolars at h
      split at h
      next => cases h; nofun
      next =>
          obtain ⟨values, -, h⟩ := Option.bind_eq_some_iff.mp h
          cases values with
          | nil => cases h
          | cons field values => cases h; nofun
      next => cases h
    exact ⟨fun _ => hvalue, fun items hitems => absurd hitems (hvalue items)⟩
  | .stringType, _, _, h => atom h
  | .integerType, _, _, h => atom h
  | .floatType, _, _, h => atom h
  | .doubleType, _, _, h => atom h
  | .booleanType, _, _, h => atom h
  | .dateType, _, _, h => atom h
  | .timestampType, _, _, h => atom h
  | .embeddingType _ _, _, _, h => atom h
  | .markdownType, _, _, h => atom h
  | .htmlType, _, _, h => atom h
  | .jsonType, _, _, h => atom h
  | .transcriptType _, _, _, h => atom h
  | .documentPathType _, _, _, h => atom h
where
  atom {t : DataType} {v : PyObj} {e : LitExpr} (h : scalarToPolars E t v = some e) :
      (isArrayType t = false → ∀ items, e.value ≠ .list items) ∧
        ∀ items, e.value = .list items → ∀ x ∈ items, ∀ inner, x ≠ .list inner :=
    ⟨fun _ => (scalarToPolars_eq_some h).2, fun items hitems => absurd hitems ((scalarToPolars_eq_some h).2 items)⟩

/-- In a list of lists, the items of the column are no lists, and those of the value are. -/
theorem not_denotes_nested {item : PyObj}
    (h : isArrayType elementType = true) : ¬Denotes E (.arrayType elementType) (.list (item :: items)) := by
  rintro ⟨x, hx, hliteral⟩
  obtain ⟨xs, hxs, rfl⟩ := Option.map_eq_some_iff.mp hx
  obtain ⟨e, he, hvalue⟩ := Option.map_eq_some_iff.mp hliteral
  have hnotList := (items_notList _ _ e he).2 xs hvalue
  obtain ⟨first, hfirst⟩ := Rows.mapM_isSome.mp ⟨xs, hxs⟩ item List.mem_cons_self
  have hmem : some first ∈ xs.map some := by
    rw [← Rows.mapM_eq_some.mp hxs, ← hfirst]
    exact List.mem_map_of_mem List.mem_cons_self
  have hfirstList := hnotList first ((List.mem_map_of_injective (Option.some_injective _)).mp hmem)
  -- so that the first item is null, and with it the whole column
  have hnull : item = .none := by
    cases elementType with
    | arrayType inner =>
      unfold widened at hfirst
      split at hfirst
      next => rfl
      next =>
          obtain ⟨ys, -, rfl⟩ := Option.map_eq_some_iff.mp hfirst
          exact absurd rfl (hfirstList ys)
      next => cases hfirst
    | _ => cases h
  subst hnull
  change Option.map concatList _ = some e at he
  obtain ⟨elems, helems, rfl⟩ := Option.map_eq_some_iff.mp he
  cases elementType with
  | arrayType inner =>
    have hnone : (concatList elems).value = .none := by
      rw [List.mapM_cons] at helems
      obtain ⟨elem, helem, helems⟩ := Option.bind_eq_some_iff.mp helems
      obtain ⟨rest, -, helems⟩ := Option.bind_eq_some_iff.mp helems
      cases helems
      cases helem
      rfl
    rw [hnone] at hvalue
    cases hvalue
  | _ => cases h

/-! ## Literals that keep their value -/

theorem denotes_list {item : PyObj} (h : isArrayType elementType = false) :
    Denotes E (.arrayType elementType) (.list (item :: items)) ↔ ∀ i ∈ item :: items, Denotes E elementType i := by
  rw [← denotes_items]
  have hconcat : ∀ elems, (item :: items).mapM (fun item => literalToPolars E elementType item) = some elems →
      concatList elems = ⟨true, .list (elems.map LitExpr.value)⟩ := by
    intro elems helems
    refine concatList_of_notList fun e he => ?_
    have hmem : some e ∈ (item :: items).map fun item => literalToPolars E elementType item :=
      Rows.mapM_eq_some.mp helems ▸ List.mem_map_of_mem he
    obtain ⟨i, -, hi⟩ := List.mem_map.mp hmem
    exact (isList_of_literal hi).trans h
  constructor
  · rintro ⟨x, hx, hliteral⟩
    obtain ⟨xs, hxs, rfl⟩ := Option.map_eq_some_iff.mp (show Option.map PyObj.list _ = some x from hx)
    obtain ⟨e, he, hvalue⟩ := Option.map_eq_some_iff.mp hliteral
    obtain ⟨elems, helems, rfl⟩ := Option.map_eq_some_iff.mp (show Option.map concatList _ = some e from he)
    rw [hconcat elems helems] at hvalue
    exact ⟨xs, elems, hxs, helems, PyObj.list.inj hvalue⟩
  · rintro ⟨xs, elems, hxs, helems, rfl⟩
    refine ⟨.list (elems.map LitExpr.value), ?_, ?_⟩
    · show Option.map PyObj.list _ = _
      rw [hxs]
      rfl
    · show Option.map LitExpr.value (Option.map concatList _) = _
      rw [helems, Option.map_some, Option.map_some, hconcat elems helems]

/-- A value that is neither null nor a list has no place in an array. -/
theorem not_list (hnone : v ≠ .none) (hlist : ∀ items, v ≠ .list items)
    (hwidened : ∀ x, widened E (.arrayType elementType) v ≠ some x) :
    Denotes E (.arrayType elementType) v ↔
      unnested (.arrayType elementType) v = true ∧ ScalarsHeld E (.arrayType elementType) v := by
  refine iff_of_false (fun ⟨x, hx, _⟩ => hwidened x hx) fun ⟨_, h⟩ => ?_
  exact h.elim hnone fun ⟨items, hitems, _⟩ => hlist items hitems

variable {fields : List (String × DataType)}

theorem not_dict (hnone : v ≠ .none) (hdict : ∀ entries, v ≠ .dict entries)
    (hwidened : ∀ x, widened E (.structType fields) v ≠ some x) :
    Denotes E (.structType fields) v ↔ unnested (.structType fields) v = true ∧ ScalarsHeld E (.structType fields) v := by
  refine iff_of_false (fun ⟨x, hx, _⟩ => hwidened x hx) fun ⟨_, h⟩ => ?_
  exact h.elim hnone fun ⟨entries, hentries, _⟩ => hdict entries hentries

/-- A dict has its value when it has fields, and they have theirs. -/
theorem denotes_dict {entries : List (String × PyObj)} :
    Denotes E (.structType fields) (.dict entries) ↔
      fields ≠ [] ∧ ∃ xs, widenedFields E fields entries = some xs ∧ literalFields E fields entries = some xs := by
  have hstruct : ∀ values : List (String × PyObj), values ≠ [] → litStruct values = some ⟨false, .dict values⟩ := by
    intro values hvalues
    cases values with
    | nil => exact absurd rfl hvalues
    | cons field values => rfl
  constructor
  · rintro ⟨x, hx, hliteral⟩
    obtain ⟨xs, hxs, rfl⟩ := Option.map_eq_some_iff.mp (show Option.map PyObj.dict _ = some x from hx)
    obtain ⟨e, he, hvalue⟩ := Option.map_eq_some_iff.mp hliteral
    obtain ⟨values, hvalues, he⟩ := Option.bind_eq_some_iff.mp (show Option.bind _ litStruct = some e from he)
    have hne : values ≠ [] := by
      rintro rfl
      cases he
    rw [hstruct values hne] at he
    cases he
    cases hvalue
    refine ⟨fun hfields => hne ?_, xs, hxs, hvalues⟩
    rw [hfields] at hvalues
    exact (Option.some.inj hvalues).symm
  · rintro ⟨hne, xs, hxs, hvalues⟩
    have hxsne : xs ≠ [] := by
      rintro rfl
      cases fields with
      | nil => exact hne rfl
      | cons field fields =>
        obtain ⟨x, -, hxs⟩ := Option.bind_eq_some_iff.mp hxs
        obtain ⟨rest, -, hxs⟩ := Option.map_eq_some_iff.mp hxs
        cases hxs
    refine ⟨.dict xs, ?_, ?_⟩
    · show Option.map PyObj.dict _ = _
      rw [hxs]
      rfl
    · show Option.map LitExpr.value (Option.bind _ litStruct) = _
      rw [hvalues, Option.bind_some, hstruct xs hxsne]
      rfl

theorem denotes_field {name : String} {entries : List (String × PyObj)} :
    (∃ xs, widenedFields E ((name, t) :: fields) entries = some xs ∧ literalFields E ((name, t) :: fields) entries = some xs) ↔
      Denotes E t (entryOf entries name) ∧
        ∃ xs, widenedFields E fields entries = some xs ∧ literalFields E fields entries = some xs := by
  rw [widenedFields, literalFields]
  constructor
  · rintro ⟨xs, hxs, hvalues⟩
    obtain ⟨x, hx, hxs⟩ := Option.bind_eq_some_iff.mp hxs
    obtain ⟨rest, hrest, rfl⟩ := Option.map_eq_some_iff.mp hxs
    obtain ⟨e, he, hvalues⟩ := Option.bind_eq_some_iff.mp hvalues
    obtain ⟨rest', hrest', heq⟩ := Option.map_eq_some_iff.mp hvalues
    obtain ⟨hfirst, rfl⟩ := List.cons.inj heq
    refine ⟨⟨x, hx, ?_⟩, rest', hrest, hrest'⟩
    rw [he]
    exact congrArg some (congrArg Prod.snd hfirst)
  · rintro ⟨⟨x, hx, hliteral⟩, rest, hrest, hrest'⟩
    obtain ⟨e, he, rfl⟩ := Option.map_eq_some_iff.mp hliteral
    exact ⟨(name, e.value) :: rest, by rw [hx, hrest]; rfl, by rw [he, hrest']; rfl⟩

mutual

/-- A literal keeps its value when no list stands in a list, and no dict has a type without fields. -/
theorem denotes_iff : ∀ (t : DataType) (v : PyObj), Denotes E t v ↔ unnested t v = true ∧ ScalarsHeld E t v
  | .arrayType elementType, v => by
    cases v with
    | none => exact iff_of_true ⟨.none, rfl, rfl⟩ ⟨rfl, Or.inl rfl⟩
    | list items =>
      cases items with
      | nil => exact iff_of_true ⟨.list [], rfl, rfl⟩ ⟨rfl, Or.inr ⟨[], rfl, nofun⟩⟩
      | cons item items =>
        cases harray : isArrayType elementType with
        | true =>
          refine iff_of_false (not_denotes_nested harray) fun ⟨h, _⟩ => ?_
          rw [unnested, harray] at h
          cases h
        | false =>
          have hunnested : unnested (.arrayType elementType) (.list (item :: items)) = true ↔
              ∀ i ∈ item :: items, unnested elementType i = true := by
            rw [unnested, harray, Bool.not_false, Bool.or_true, Bool.true_and, List.all_eq_true]
          have hheld : ScalarsHeld E (.arrayType elementType) (.list (item :: items)) ↔
              ∀ i ∈ item :: items, ScalarsHeld E elementType i := by
            refine ⟨fun h => ?_, fun h => Or.inr ⟨_, rfl, h⟩⟩
            obtain ⟨written, hwritten, h⟩ := h.resolve_left nofun
            cases hwritten
            exact h
          rw [denotes_list harray, forall₂_congr fun i _ => denotes_iff elementType i, hunnested, hheld]
          exact forall₂_and
    | _ => exact not_list nofun nofun nofun
  | .structType fields, v => by
    cases v with
    | none => exact iff_of_true ⟨.none, rfl, rfl⟩ ⟨rfl, Or.inl rfl⟩
    | dict entries =>
      have hunnested : unnested (.structType fields) (.dict entries) = true ↔
          fields ≠ [] ∧ unnestedFields fields entries = true := by
        rw [unnested, Bool.and_eq_true, Bool.not_eq_true', List.isEmpty_eq_false_iff]
      have hheld : ScalarsHeld E (.structType fields) (.dict entries) ↔ FieldsHeld E fields entries := by
        refine ⟨fun h => ?_, fun h => Or.inr ⟨entries, rfl, h⟩⟩
        obtain ⟨written, hwritten, h⟩ := h.resolve_left nofun
        cases hwritten
        exact h
      rw [denotes_dict, denotesFields_iff fields entries, hunnested, hheld, and_assoc]
    | _ => exact not_dict nofun nofun nofun
  | .stringType, _ => atom_iff rfl Iff.rfl
  | .integerType, _ => atom_iff rfl Iff.rfl
  | .floatType, _ => atom_iff rfl Iff.rfl
  | .doubleType, _ => atom_iff rfl Iff.rfl
  | .booleanType, _ => atom_iff rfl Iff.rfl
  | .dateType, _ => atom_iff rfl Iff.rfl
  | .timestampType, _ => atom_iff rfl Iff.rfl
  | .embeddingType _ _, _ => atom_iff rfl Iff.rfl
  | .markdownType, _ => atom_iff rfl Iff.rfl
  | .htmlType, _ => atom_iff rfl Iff.rfl
  | .jsonType, _ => atom_iff rfl Iff.rfl
  | .transcriptType _, _ => atom_iff rfl Iff.rfl
  | .documentPathType _, _ => atom_iff rfl Iff.rfl
where
  atom_iff {t : DataType} {v : PyObj} (hunnested : unnested t v = true) (hheld : ScalarsHeld E t v ↔ Denotes E t v) :
      Denotes E t v ↔ unnested t v = true ∧ ScalarsHeld E t v := by
    rw [hunnested, hheld]
    exact (and_iff_right rfl).symm

theorem denotesFields_iff : ∀ (fields : List (String × DataType)) (entries : List (String × PyObj)),
    (∃ xs, widenedFields E fields entries = some xs ∧ literalFields E fields entries = some xs) ↔
      unnestedFields fields entries = true ∧ FieldsHeld E fields entries
  | [], _ => iff_of_true ⟨[], rfl, rfl⟩ ⟨rfl, trivial⟩
  | (name, t) :: fields, entries => by
    rw [denotes_field, denotes_iff t (entryOf entries name), denotesFields_iff fields entries, unnestedFields, FieldsHeld,
      Bool.and_eq_true]
    exact and_and_and_comm

end

/-! ## Arrays -/

/-- `_convert_array_expr`, over the values of the arguments in a row. They have one type. -/
def convertArray (t : DataType) (values : List PyObj) : PyObj := (concatList (values.map fun x => ⟨isArrayType t, x⟩)).value

theorem sum_sizeOf_lt (values : List PyObj) : (values.map sizeOf).sum < sizeOf (PyObj.list values) := by
  have hle : (values.map sizeOf).sum ≤ sizeOf values := by
    induction values with
    | nil => exact Nat.zero_le _
    | cons x values ih =>
      rw [List.map_cons, List.sum_cons, List.cons.sizeOf_spec]
      omega
  rw [PyObj.list.sizeOf_spec]
  omega

/-- Lists are larger than all their items together. -/
theorem sum_sizeOf_flatten : ∀ (values : List PyObj) (parts : List (List PyObj)),
    (values.map fun x => LitExpr.mk true x).mapM LitExpr.items? = some parts → values ≠ [] →
      (parts.flatten.map sizeOf).sum < (values.map sizeOf).sum
  | [], _, _, hne => absurd rfl hne
  | x :: values, parts, h, _ => by
    rw [List.map_cons, List.mapM_cons] at h
    obtain ⟨part, hpart, h⟩ := Option.bind_eq_some_iff.mp h
    obtain ⟨rest, hrest, h⟩ := Option.bind_eq_some_iff.mp h
    cases h
    have hx : (part.map sizeOf).sum < sizeOf x := by
      cases x with
      | list items =>
        cases hpart
        exact sum_sizeOf_lt _
      | _ => cases hpart
    rw [List.flatten_cons, List.map_append, List.sum_append, List.map_cons, List.sum_cons]
    cases values with
    | nil =>
      cases hrest
      exact Nat.add_lt_add_of_lt_of_le hx (Nat.le_refl _)
    | cons y values => exact Nat.add_lt_add hx (sum_sizeOf_flatten (y :: values) rest hrest (List.cons_ne_nil _ _))

/-- An array has its arguments as its elements exactly when they are no arrays. -/
theorem convertArray_iff (t : DataType) {values : List PyObj} (hne : values ≠ []) :
    convertArray t values = .list values ↔ isArrayType t = false := by
  cases harray : isArrayType t with
  | false =>
    refine iff_of_true ?_ rfl
    rw [convertArray, harray, concatList_of_notList fun e he => by obtain ⟨x, -, rfl⟩ := List.mem_map.mp he; rfl, List.map_map]
    exact congrArg PyObj.list (List.map_id values)
  | true =>
    refine iff_of_false (fun h => ?_) nofun
    rw [convertArray, harray, concatList] at h
    split at h
    next parts hparts =>
        have hsize := sum_sizeOf_flatten values parts hparts hne
        rw [PyObj.list.inj h] at hsize
        exact Nat.lt_irrefl _ hsize
    next => cases h

/-! ## What `lit` takes -/

/-- The type of `lit(value)`, which takes neither null nor an empty collection. -/
def lit : PyObj → Option DataType
  | .none => none
  | .list [] => none
  | .dict [] => none
  | v => (inferDtypeFromPyobj "" v).toOption

/-- **A literal denotes its value exactly when no list stands in a list, no dict has a type without fields, and the engine
holds its scalars; an array denotes its arguments exactly when they are no arrays.** -/
theorem literalsAndArrays_iff (E : LiteralEngine) :
    (∀ v t, lit v = some t → (Denotes E t v ↔ unnested t v = true ∧ ScalarsHeld E t v)) ∧
      ∀ (t : DataType) (values : List PyObj), values ≠ [] → (convertArray t values = .list values ↔ isArrayType t = false) :=
  ⟨fun v t _ => denotes_iff t v, fun t _ hne => convertArray_iff t hne⟩

/-! ## Two lists in a list -/

namespace LiteralExamples

/-- Integers have 64 bits, and are brought to floats. -/
def engine : LiteralEngine where
  hold
    | _, .list _ => none
    | .floatType, .int n => some (.float (.finite n))
    | _, .int n => if -2 ^ 63 ≤ n ∧ n < 2 ^ 63 then some (.int n) else none
    | _, v => some v
  utc text := text
  scalar t v x h items := by
    split at h
    · cases h
    · cases h
      nofun
    · obtain ⟨-, h⟩ := Option.ite_none_right_eq_some.mp h
      cases h
      nofun
    next hlist _ _ =>
      cases h
      exact hlist items

/-- `{"a": [1, 2.5], "b": "x"}`. -/
def mixed : PyObj := .dict [("a", .list [.int 1, .float (.finite (5 / 2))]), ("b", .str "x")]

def mixedType : DataType := .structType [("a", .arrayType .floatType), ("b", .stringType)]

/-- The integer is a float, and an array of texts has its arguments. -/
theorem mixed_denotes :
    lit mixed = some mixedType ∧ Denotes engine mixedType mixed ∧
      convertArray .stringType [.str "x", .str "y"] = .list [.str "x", .str "y"] := by
  refine ⟨by decide +kernel, ?_, ?_⟩
  · refine ((literalsAndArrays_iff engine).1 mixed mixedType (by decide +kernel)).mpr ⟨by decide +kernel, ?_⟩
    refine Or.inr ⟨_, rfl, Or.inr ⟨_, rfl, fun item hitem => ?_⟩, ⟨_, rfl, rfl⟩, trivial⟩
    rcases List.mem_cons.mp hitem with rfl | hitem
    · exact ⟨_, rfl, rfl⟩
    · rw [List.mem_singleton.mp hitem]
      exact ⟨_, rfl, rfl⟩
  · exact ((literalsAndArrays_iff engine).2 .stringType _ (List.cons_ne_nil _ _)).mpr rfl

/-- `[[1, 2], [3]]`. -/
def nested : PyObj := .list [.list [.int 1, .int 2], .list [.int 3]]

/-- `{"a": {}}`. -/
def hollow : PyObj := .dict [("a", .dict [])]

/-- `[[1, 2], [3]]` becomes `[1, 2, 3]`, `{"a": {}}` becomes nothing, and an array of two arrays is their concatenation. -/
theorem nested_loses :
    lit nested = some (.arrayType (.arrayType .integerType)) ∧
      literalToPolars engine (.arrayType (.arrayType .integerType)) nested = some ⟨true, .list [.int 1, .int 2, .int 3]⟩ ∧
      ¬Denotes engine (.arrayType (.arrayType .integerType)) nested ∧
      lit hollow = some (.structType [("a", .structType [])]) ∧
      literalToPolars engine (.structType [("a", .structType [])]) hollow = none ∧
      convertArray (.arrayType .integerType) [.list [.int 1], .list [.int 2]] = .list [.int 1, .int 2] := by
  refine ⟨by decide +kernel, rfl, ?_, by decide +kernel, rfl, rfl⟩
  rintro ⟨x, hx, hliteral⟩
  cases hx
  cases hliteral

end LiteralExamples

end Expressions

end Fenic
