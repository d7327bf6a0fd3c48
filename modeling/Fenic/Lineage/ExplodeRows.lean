import Fenic.Lineage.Soundness

/-!
# `Lineage.ExplodeRows` — the rows of an exploded column

An explode is to make one row for each element of an array, and none, or one that is null, for no array and the empty one.
In the exploded column all three can be null, and the filter that drops the rows of missing arrays drops the null elements
with them: `explode_isExact_iff`.

## Contents
- **What is asked for.** `elements` are the elements of a cell with their positions.
- **What is made.** `keptElements` are those that pass the filter.
- **Names.** `explodeWithIndexColumns` are the names that a plan with an index is checked for.
-/

namespace Fenic

namespace Lineage

variable {V : Type} [ColumnValue V]

/-! ## What is asked for -/

/-- Arrays and nulls; row ids are no data. -/
def IsArrayColumn (physicalExpr : RowExpr V) (child : Frame V) : Prop :=
  ∀ r ∈ child.rows, ∀ n, physicalExpr.eval r ≠ .rowId n

/-- What stands for a null array and for an empty one. -/
def missing (keepNullAndEmpty : Bool) : List (Cell V × Cell V) :=
  if keepNullAndEmpty then [(.null, .null)] else []

/-- The elements of an array with their positions. -/
def elements (keepNullAndEmpty : Bool) : Cell V → List (Cell V × Cell V)
  | .val v =>
    match ColumnValue.items v with
    | [] => missing keepNullAndEmpty
    | items => items.mapIdx fun i item => (Cell.ofOption item, .val (ColumnValue.index i))
  | _ => missing keepNullAndEmpty

/-- One row for each element, with the element in the place of the array. -/
def exploded (physicalExpr : RowExpr V) (colName : String) (keepNullAndEmpty : Bool) (child : Frame V) : Frame V :=
  ⟨Frame.withName child.columns colName, child.rows.flatMap fun r =>
    (elements keepNullAndEmpty (physicalExpr.eval r)).map fun p => Function.update r colName p.1⟩

/-- The columns with the values under their new name, and the positions. -/
def indexedColumns (columns : List String) (colName indexName valueName : String) : List String :=
  (Frame.withName columns colName).map (fun c => if c = colName then valueName else c) ++ [indexName]

/-- One row for each element, with the element and its position. -/
def explodedWithIndex (physicalExpr : RowExpr V) (colName indexName valueName : String) (keepNullAndEmpty : Bool)
    (child : Frame V) : Frame V :=
  ⟨indexedColumns child.columns colName indexName valueName, child.rows.flatMap fun r =>
    (elements keepNullAndEmpty (physicalExpr.eval r)).map fun p =>
      Function.update (Function.update r indexName p.2) valueName p.1⟩

/-- An execution that has the columns and the rows of a frame. -/
def Makes (result : Option (Frame V)) (f : Frame V) : Prop :=
  ∃ g, result = some g ∧ g.columns = f.columns ∧ g.tuples = f.tuples

/-- Some array has a null among its elements. -/
def HasNullElement (physicalExpr : RowExpr V) (child : Frame V) : Prop :=
  ∃ r ∈ child.rows, ∃ v, physicalExpr.eval r = .val v ∧ none ∈ ColumnValue.items v

/-! ## What is made -/

def notNull : Cell V → Bool
  | .null => false
  | _ => true

/-- The elements that pass the filter. -/
def keptElements (keepNullAndEmpty : Bool) (cell : Cell V) : List (Cell V × Cell V) :=
  if keepNullAndEmpty then explodeCellWithIndex cell else (explodeCellWithIndex cell).filter fun p => notNull p.1

omit [ColumnValue V] in
theorem dropNulls_eq (name : String) (f : Frame V) :
    f.dropNulls name = ⟨f.columns, f.rows.filter fun r => notNull (r name)⟩ := by
  refine congrArg (Frame.mk f.columns) (List.filter_congr fun r _ => ?_)
  cases r name <;> rfl

theorem explodeCell_eq (cell : Cell V) : Frame.explodeCell cell = (explodeCellWithIndex cell).map Prod.fst := by
  cases cell with
  | null => rfl
  | rowId n => rfl
  | val v =>
    show (match ColumnValue.items v with | [] => [Cell.null] | items => items.map Cell.ofOption) =
      (match ColumnValue.items v with
        | [] => [(Cell.null, Cell.null)]
        | items => items.mapIdx fun i item => (Cell.ofOption item, Cell.val (ColumnValue.index i))).map Prod.fst
    cases ColumnValue.items v with
    | nil => rfl
    | cons item items =>
      show (item :: items).map Cell.ofOption = ((item :: items).mapIdx _).map Prod.fst
      apply List.ext_getElem
      · simp
      · intro i hi hi'
        simp only [List.getElem_map, List.getElem_mapIdx]

variable {cell : Cell V}

/-- Null elements are filtered like missing arrays. -/
theorem keptElements_eq (hcell : ∀ n, cell ≠ .rowId n) (keepNullAndEmpty : Bool) :
    keptElements keepNullAndEmpty cell =
      if keepNullAndEmpty then elements keepNullAndEmpty cell
      else (elements keepNullAndEmpty cell).filter fun p => notNull p.1 := by
  cases cell with
  | null => cases keepNullAndEmpty <;> rfl
  | rowId n => exact absurd rfl (hcell n)
  | val v =>
    rw [keptElements, explodeCellWithIndex, elements]
    cases ColumnValue.items v with
    | nil => cases keepNullAndEmpty <;> rfl
    | cons item items => cases keepNullAndEmpty <;> rfl

theorem filter_elements_eq_self_iff :
    (elements false cell).filter (fun p => notNull p.1) = elements false cell ↔
      ∀ v, cell = .val v → none ∉ ColumnValue.items v := by
  cases cell with
  | null => exact iff_of_true rfl nofun
  | rowId n => exact iff_of_true rfl nofun
  | val v =>
    rw [List.filter_eq_self, elements]
    have hitem : ∀ item : Option V, notNull (Cell.ofOption item) = true ↔ item ≠ none := by
      intro item
      cases item with
      | none => exact ⟨nofun, fun h => absurd rfl h⟩
      | some u => exact ⟨fun _ => nofun, fun _ => rfl⟩
    cases hitems : ColumnValue.items v with
    | nil =>
      refine iff_of_true nofun fun u hu => ?_
      rw [← Cell.val.inj hu, hitems]
      exact List.not_mem_nil
    | cons item items =>
      constructor
      · intro hall u hu hmem
        rw [← Cell.val.inj hu, hitems] at hmem
        obtain ⟨i, hi, hnone⟩ := List.mem_iff_getElem.mp hmem
        have hnotNull := hall _ (List.mem_mapIdx.mpr ⟨i, hi, rfl⟩)
        exact (hitem _).mp hnotNull hnone
      · intro hnone p hp
        obtain ⟨i, hi, rfl⟩ := List.mem_mapIdx.mp hp
        refine (hitem _).mpr fun heq => hnone v rfl ?_
        rw [hitems]
        exact heq ▸ List.getElem_mem hi

theorem length_keptElements_le (hcell : ∀ n, cell ≠ .rowId n) (keepNullAndEmpty : Bool) :
    (keptElements keepNullAndEmpty cell).length ≤ (elements keepNullAndEmpty cell).length := by
  rw [keptElements_eq hcell]
  split
  · exact Nat.le_refl _
  · exact List.length_filter_le _ _

/-! ## Rows -/

/-- The frame of all rows that are put together from a row and an element of it. -/
def frameOf (columns : List String) (rows : List (Row V)) (parts : Row V → List (Cell V × Cell V))
    (put : Row V → Cell V × Cell V → Row V) : Frame V :=
  ⟨columns, rows.flatMap fun r => (parts r).map (put r)⟩

omit [ColumnValue V] in
theorem tuples_frameOf (columns : List String) (rows : List (Row V)) (parts : Row V → List (Cell V × Cell V))
    (put : Row V → Cell V × Cell V → Row V) :
    (frameOf columns rows parts put).tuples = rows.flatMap fun r => (parts r).map fun p => columns.map (put r p) := by
  rw [Frame.tuples, frameOf, List.map_flatMap]
  exact congrArg (fun g => rows.flatMap g) (funext fun r => List.map_map)

variable {physicalExpr : RowExpr V} {child : Frame V} {columns : List String}

/-- With one row fewer for some row, and more for none, the frames differ. -/
theorem makes_frameOf_iff (harray : IsArrayColumn physicalExpr child)
    (keepNullAndEmpty : Bool) {put put' : Row V → Cell V × Cell V → Row V}
    (hput : ∀ r p, columns.map (put r p) = columns.map (put' r p)) :
    Makes (some (frameOf columns child.rows (fun r => keptElements keepNullAndEmpty (physicalExpr.eval r)) put))
        (frameOf columns child.rows (fun r => elements keepNullAndEmpty (physicalExpr.eval r)) put') ↔
      (keepNullAndEmpty = false → ¬HasNullElement physicalExpr child) := by
  constructor
  · rintro ⟨g, hg, -, htuples⟩ rfl ⟨r, hr, v, hv, hnone⟩
    cases hg
    rw [tuples_frameOf, tuples_frameOf] at htuples
    have hlength := congrArg List.length htuples
    rw [List.length_flatMap, List.length_flatMap] at hlength
    simp only [List.length_map] at hlength
    refine absurd hlength (Nat.ne_of_lt (List.sum_lt_sum _ _ (fun r hr => length_keptElements_le (harray r hr) false) ?_))
    refine ⟨r, hr, lt_of_le_of_ne (length_keptElements_le (harray r hr) false) fun heq => ?_⟩
    rw [keptElements_eq (harray r hr)] at heq
    have hself := List.filter_sublist.eq_of_length heq
    exact filter_elements_eq_self_iff.mp hself v hv hnone
  · intro hnull
    refine ⟨_, rfl, rfl, ?_⟩
    rw [tuples_frameOf, tuples_frameOf]
    simp only [hput]
    refine List.flatMap_congr fun r hr => congrArg (List.map _) ?_
    rw [keptElements_eq (harray r hr)]
    cases hkeep : keepNullAndEmpty with
    | true => rfl
    | false => exact filter_elements_eq_self_iff.mpr fun v hv hnone => hnull hkeep ⟨r, hr, v, hv, hnone⟩

variable {colName : String}

/-- `ExplodeExec` makes rows of the kept elements. -/
theorem explodeExec_eq (hname : physicalExpr.name = colName)
    (hroots : physicalExpr.roots ⊆ child.columns) (keepNullAndEmpty : Bool) :
    ExplodeExec.executeNode physicalExpr colName keepNullAndEmpty child =
      some (frameOf (Frame.withName child.columns colName) child.rows
        (fun r => keptElements keepNullAndEmpty (physicalExpr.eval r)) fun r p => Function.update r colName p.1) := by
  rw [ExplodeExec.executeNode, Frame.withColumn, if_pos hroots, hname, Option.bind_some, ExplodeExec.explode, Frame.explode,
    if_pos (mem_withName.mpr (Or.inr rfl)), Option.map_some, List.flatMap_map]
  simp only [Function.update_self, Function.update_idem, explodeCell_eq, List.map_map, dropNulls_eq]
  refine congrArg some ?_
  cases keepNullAndEmpty with
  | true => rfl
  | false =>
    refine congrArg (Frame.mk _) ?_
    rw [List.filter_flatMap]
    refine congrArg (fun g => child.rows.flatMap g) (funext fun r => ?_)
    rw [List.filter_map]
    simp only [Function.comp_def, Function.update_self]
    rfl

/-! ## Names -/

/-- The names in the schema of an explode with index, which `_validate_schema` checks. -/
def explodeWithIndexColumns (columns : List String) (colName indexName valueName : String) : List String :=
  indexName ::
    if colName ∈ columns then
      columns.flatMap fun c => if c = colName then (if valueName ≠ c then [c, valueName] else [valueName]) else [c]
    else columns ++ [valueName]

variable {indexName valueName : String}

/-- Names that pass the check are apart, but the index may take the name of a column that is only computed. -/
theorem apart_of_nodup
    (h : (explodeWithIndexColumns columns colName indexName valueName).Nodup) :
    indexName ∉ columns ∧ indexName ≠ valueName ∧ (valueName = colName ∨ valueName ∉ columns) := by
  obtain ⟨hindex, hrest⟩ := List.nodup_cons.mp h
  by_cases hmem : colName ∈ columns
  · rw [if_pos hmem] at hindex hrest
    have hcolumn : ∀ c ∈ columns, c ∈ columns.flatMap fun c =>
        if c = colName then (if valueName ≠ c then [c, valueName] else [valueName]) else [c] := by
      intro c hc
      refine List.mem_flatMap.mpr ⟨c, hc, ?_⟩
      split
      · split
        · exact List.mem_cons_self
        next heq => exact List.mem_singleton.mpr (not_ne_iff.mp heq).symm
      · exact List.mem_cons_self
    have hvalue : valueName ∈ columns.flatMap fun c =>
        if c = colName then (if valueName ≠ c then [c, valueName] else [valueName]) else [c] := by
      refine List.mem_flatMap.mpr ⟨colName, hmem, ?_⟩
      rw [if_pos rfl]
      split
      · exact List.mem_cons_of_mem _ List.mem_cons_self
      · exact List.mem_cons_self
    refine ⟨fun hc => hindex (hcolumn _ hc), fun heq => hindex (heq ▸ hvalue), ?_⟩
    by_contra hnot
    rw [not_or, not_not] at hnot
    -- the values would be there twice, under their own name and after the arrays
    obtain ⟨front, back, rfl⟩ := List.append_of_mem hmem
    have hother : valueName ∈ front ∨ valueName ∈ back := by
      rcases List.mem_append.mp hnot.2 with hfront | hback
      · exact Or.inl hfront
      · exact Or.inr ((List.mem_cons.mp hback).resolve_left hnot.1)
    rw [List.flatMap_append, List.flatMap_cons, if_pos rfl, if_pos hnot.1] at hrest
    have hpart : ∀ part : List String, valueName ∈ part → valueName ∈ part.flatMap fun c =>
        if c = colName then (if valueName ≠ c then [c, valueName] else [valueName]) else [c] := by
      intro part hpart
      refine List.mem_flatMap.mpr ⟨valueName, hpart, ?_⟩
      rw [if_neg hnot.1]
      exact List.mem_cons_self
    obtain ⟨-, htail, hdisjoint⟩ := List.nodup_append.mp hrest
    rcases hother with hfront | hback
    · exact hdisjoint _ (hpart front hfront) _ (List.mem_append_left _ (List.mem_cons_of_mem _ List.mem_cons_self)) rfl
    · obtain ⟨-, -, hdisjoint⟩ := List.nodup_append.mp htail
      exact hdisjoint _ (List.mem_cons_of_mem _ List.mem_cons_self) _ (hpart back hback) rfl
  · rw [if_neg hmem] at hindex hrest
    rw [List.mem_append, not_or, List.mem_singleton] at hindex
    refine ⟨hindex.1, hindex.2, Or.inr fun hvalue => ?_⟩
    obtain ⟨-, -, hdisjoint⟩ := List.nodup_append.mp hrest
    exact hdisjoint _ hvalue _ List.mem_cons_self rfl

/-! ## With the index -/

/-- A row with an element and its position, under the names that the operator gives them. -/
def indexedRow (physicalExpr : RowExpr V) (colName indexName valueName : String) (r : Row V) (p : Cell V × Cell V) : Row V :=
  let row := Function.update (Function.update (Function.update r colName (physicalExpr.eval r)) indexName p.2) colName p.1
  if valueName ≠ colName then Function.update row valueName (row colName) else row

omit [ColumnValue V] in
/-- The rename gives the values their new name. -/
theorem rename_indexed
    (hplanned : (explodeWithIndexColumns columns colName indexName valueName).Nodup) (hindex : indexName ≠ colName)
    (hvalue : valueName ≠ colName) (rows : List (Row V)) :
    Frame.rename colName valueName ⟨Frame.withName (Frame.withName columns colName) indexName, rows⟩ =
      some ⟨indexedColumns columns colName indexName valueName, rows.map fun r => Function.update r valueName (r colName)⟩ := by
  obtain ⟨hnotIndex, hne, hnotValue⟩ := apart_of_nodup hplanned
  have hnotMem : ∀ {name : String}, name ∉ columns → name ≠ colName → name ∉ Frame.withName columns colName :=
    fun hname hneName hmem => (mem_withName.mp hmem).elim hname hneName
  have hcolumns : Frame.withName (Frame.withName columns colName) indexName = Frame.withName columns colName ++ [indexName] :=
    if_neg (hnotMem hnotIndex hindex)
  rw [Frame.rename, if_pos ?_]
  · rw [hcolumns]
    show some (Frame.mk ((Frame.withName columns colName ++ [indexName]).map _) _) = _
    rw [List.map_append, List.map_singleton, if_neg hindex]
    rfl
  · show colName ∈ Frame.withName (Frame.withName columns colName) indexName ∧
      valueName ∉ Frame.withName (Frame.withName columns colName) indexName
    rw [hcolumns, List.mem_append, List.mem_append, not_or]
    exact ⟨Or.inl (mem_withName.mpr (Or.inr rfl)), hnotMem (hnotValue.resolve_left hvalue) hvalue,
      fun hmem => hne (List.mem_singleton.mp hmem).symm⟩

theorem indexedColumns_self (hindex : indexName ∉ columns)
    (hne : indexName ≠ colName) :
    indexedColumns columns colName indexName colName = Frame.withName (Frame.withName columns colName) indexName := by
  have hmap : (fun c : String => if c = colName then colName else c) = id := by
    funext c
    split
    next heq => exact heq.symm
    next => rfl
  rw [indexedColumns, hmap, List.map_id]
  exact (if_neg fun hmem => (mem_withName.mp hmem).elim hindex hne).symm

/-- `ExplodeWithIndexExec` makes rows of the kept elements and their positions. -/
theorem explodeWithIndexExec_eq
    (hname : physicalExpr.name = colName) (hroots : physicalExpr.roots ⊆ child.columns)
    (hplanned : (explodeWithIndexColumns child.columns colName indexName valueName).Nodup) (hindex : indexName ≠ colName)
    (keepNullAndEmpty : Bool) :
    ExplodeWithIndexExec.executeNode physicalExpr colName indexName valueName keepNullAndEmpty child =
      some (frameOf (indexedColumns child.columns colName indexName valueName) child.rows
        (fun r => keptElements keepNullAndEmpty (physicalExpr.eval r))
        (indexedRow physicalExpr colName indexName valueName)) := by
  let put : Row V → Cell V × Cell V → Row V := fun r p =>
    Function.update (Function.update (Function.update r colName (physicalExpr.eval r)) indexName p.2) colName p.1
  -- the exploded frame, before the values are renamed
  have hkept : ∀ exploded : Frame V, exploded = ⟨Frame.withName (Frame.withName child.columns colName) indexName,
        (child.rows.map fun r => Function.update r colName (physicalExpr.eval r)).flatMap fun r =>
          (explodeCellWithIndex (r colName)).map fun pair =>
            Function.update (Function.update r indexName pair.2) colName pair.1⟩ →
      (if keepNullAndEmpty then exploded else exploded.dropNulls colName) =
        frameOf (Frame.withName (Frame.withName child.columns colName) indexName) child.rows
          (fun r => keptElements keepNullAndEmpty (physicalExpr.eval r)) put := by
    rintro exploded rfl
    rw [List.flatMap_map]
    simp only [Function.update_self]
    cases keepNullAndEmpty with
    | true => rfl
    | false =>
      rw [if_neg Bool.false_ne_true, dropNulls_eq, List.filter_flatMap]
      refine congrArg (Frame.mk _) (congrArg (fun g => child.rows.flatMap g) (funext fun r => ?_))
      rw [List.filter_map]
      simp only [Function.comp_def, Function.update_self]
      rfl
  rw [ExplodeWithIndexExec.executeNode, Frame.withColumn, if_pos hroots, hname, Option.bind_some,
    if_pos ⟨mem_withName.mpr (Or.inr rfl), hindex⟩]
  simp only [hkept _ rfl]
  by_cases hvalue : valueName = colName
  · subst hvalue
    rw [if_neg (not_not_intro rfl), indexedColumns_self (apart_of_nodup hplanned).1 hindex]
    refine congrArg (fun put => some (frameOf _ _ _ put)) (funext fun r => funext fun p => ?_)
    exact (if_neg (not_not_intro rfl)).symm
  · rw [if_pos hvalue, frameOf, rename_indexed hplanned hindex hvalue, List.map_flatMap]
    refine congrArg (fun g => some (Frame.mk _ (child.rows.flatMap g))) (funext fun r => ?_)
    rw [List.map_map]
    refine congrArg (fun f => List.map f _) (funext fun p => ?_)
    exact (if_pos hvalue).symm

omit [ColumnValue V] in
/-- Under the names of the columns, the operator's rows are the rows asked for. -/
theorem map_indexedRow
    (hplanned : (explodeWithIndexColumns columns colName indexName valueName).Nodup) (hindex : indexName ≠ colName)
    (physicalExpr : RowExpr V) (r : Row V) (p : Cell V × Cell V) :
    (indexedColumns columns colName indexName valueName).map (indexedRow physicalExpr colName indexName valueName r p) =
      (indexedColumns columns colName indexName valueName).map
        (Function.update (Function.update r indexName p.2) valueName p.1) := by
  apply List.map_congr_left
  intro c hc
  have hcolumn : c ≠ valueName → c ≠ colName := by
    rintro hcvalue rfl
    rcases List.mem_append.mp hc with hmem | hmem
    · obtain ⟨c', -, heq⟩ := List.mem_map.mp hmem
      split at heq
      next => exact hcvalue heq.symm
      next hc' => exact hc' heq
    · exact hindex (List.mem_singleton.mp hmem).symm
  unfold indexedRow
  by_cases hcvalue : c = valueName
  · subst hcvalue
    rw [Function.update_self]
    split
    · rw [Function.update_self, Function.update_self]
    next heq => rw [not_ne_iff.mp heq, Function.update_self, Function.update_self]
  · have hccol := hcolumn hcvalue
    have hrow : (Function.update (Function.update (Function.update r colName (physicalExpr.eval r)) indexName p.2)
        colName p.1) c = Function.update r indexName p.2 c := by
      rw [Function.update_of_ne hccol]
      by_cases hcindex : c = indexName
      · rw [hcindex, Function.update_self, Function.update_self]
      · rw [Function.update_of_ne hcindex, Function.update_of_ne hcindex, Function.update_of_ne hccol]
    rw [Function.update_of_ne hcvalue]
    split
    · rw [Function.update_of_ne hcvalue, hrow]
    · exact hrow

/-- **An explode is exact when no null element is to be dropped**, and with an index when that does not take the name of
the arrays besides. -/
theorem explode_isExact_iff {physicalExpr : RowExpr V} {colName : String} {child : Frame V}
    (hname : physicalExpr.name = colName) (hroots : physicalExpr.roots ⊆ child.columns)
    (harray : IsArrayColumn physicalExpr child) (keepNullAndEmpty : Bool) :
    (Makes (ExplodeExec.executeNode physicalExpr colName keepNullAndEmpty child)
        (exploded physicalExpr colName keepNullAndEmpty child) ↔
      (keepNullAndEmpty = false → ¬HasNullElement physicalExpr child)) ∧
    ∀ indexName valueName, (explodeWithIndexColumns child.columns colName indexName valueName).Nodup →
      (Makes (ExplodeWithIndexExec.executeNode physicalExpr colName indexName valueName keepNullAndEmpty child)
          (explodedWithIndex physicalExpr colName indexName valueName keepNullAndEmpty child) ↔
        indexName ≠ colName ∧ (keepNullAndEmpty = false → ¬HasNullElement physicalExpr child)) := by
  refine ⟨?_, fun indexName valueName hplanned => ?_⟩
  · rw [explodeExec_eq hname hroots]
    exact makes_frameOf_iff harray keepNullAndEmpty fun r p => rfl
  · by_cases hindex : indexName = colName
    · refine iff_of_false ?_ fun h => h.1 hindex
      rintro ⟨g, hg, -⟩
      rw [ExplodeWithIndexExec.executeNode, Frame.withColumn, if_pos hroots, Option.bind_some,
        if_neg fun h => h.2 hindex] at hg
      cases hg
    · rw [explodeWithIndexExec_eq hname hroots hplanned hindex, and_iff_right hindex]
      exact makes_frameOf_iff harray keepNullAndEmpty (map_indexedRow hplanned hindex physicalExpr)

/-! ## Tags -/

/-- Numbers, and arrays of them. -/
inductive Datum where
  | number (n : Nat)
  | array (items : List (Option Nat))
  deriving DecidableEq

instance : ColumnValue Datum where
  isTrue := fun _ => false
  items := fun
    | .array items => items.map fun item => item.map .number
    | .number _ => []
  field := fun _ _ => none
  index := .number

/-- `{"id": [1, 2, 3], "tags": [[7, None], [], None]}`. -/
def tags : Frame Datum :=
  ⟨["id", "tags"], [
    fun name => if name = "id" then .val (.number 1) else .val (.array [some 7, none]),
    fun name => if name = "id" then .val (.number 2) else .val (.array []),
    fun name => if name = "id" then .val (.number 3) else .null]⟩

/-- All three are there where nulls are kept. -/
theorem tags_exact :
    Makes (ExplodeExec.executeNode (.column "tags") "tags" true tags) (exploded (.column "tags") "tags" true tags) ∧
      Makes (ExplodeWithIndexExec.executeNode (.column "tags") "tags" "pos" "col" true tags)
        (explodedWithIndex (.column "tags") "tags" "pos" "col" true tags) := by
  have harray : IsArrayColumn (.column "tags") tags := by
    intro r hr n
    have hr' : r = _ ∨ r ∈ [_, _] := List.mem_cons.mp hr
    rcases hr' with rfl | hr
    · nofun
    · rcases List.mem_cons.mp hr with rfl | hr
      · nofun
      · rw [List.mem_singleton.mp hr]
        nofun
  obtain ⟨hexplode, hindexed⟩ := @explode_isExact_iff Datum _ (.column "tags") "tags" tags rfl (by decide) harray true
  exact ⟨hexplode.mpr nofun, (hindexed "pos" "col" (by decide)).mpr ⟨by decide, nofun⟩⟩

/-- Where they are not, `[7, None]` has one row. -/
theorem nullElement_dropped :
    (ExplodeExec.executeNode (.column "tags") "tags" false tags).map Frame.tuples = some [[.val (.number 1), .val (.number 7)]] ∧
      ¬Makes (ExplodeExec.executeNode (.column "tags") "tags" false tags) (exploded (.column "tags") "tags" false tags) ∧
      ¬Makes (ExplodeWithIndexExec.executeNode (.column "tags") "tags" "pos" "col" false tags)
        (explodedWithIndex (.column "tags") "tags" "pos" "col" false tags) := by
  refine ⟨by decide +kernel, ?_, ?_⟩
  · rintro ⟨g, hg, -, htuples⟩
    cases hg
    exact absurd htuples (by decide +kernel)
  · rintro ⟨g, hg, -, htuples⟩
    cases hg
    exact absurd htuples (by decide +kernel)

end Lineage

end Fenic
