import Fenic.Lib.Except
import Mathlib.Data.List.ReduceOption

/-!
# `Expressions.ArrayFunctions` — four array functions as list kernels

`array_remove` filters each array by an expression on its elements, `flatten` explodes the inner arrays, and `slice` and
`element_at` shift an index that counts from one before they hand it to the kernel. A filter drops the elements for which its
predicate is null, exploding an empty or a null array gives one null, and getting an element out of bounds raises. So each of
the functions is what is documented of it only on arrays without the nulls and the empty arrays that these rules are about.
-/

namespace Fenic

namespace ArrayFunctions

/-! ## Kernels -/

section
variable {β : Type}

/-- A value of an array column. -/
abbrev Cell (β : Type) := Option (List (Option β))

/-- `!=`, which is null on a null. -/
def ne [DecidableEq β] : Option β → Option β → Option Bool
  | some x, some y => some (decide (x ≠ y))
  | _, _ => none

/-- `filter`, which keeps an element only when its predicate is true. -/
def filterExpr {γ : Type} (predicate : γ → Option Bool) (xs : List γ) : List γ := xs.filter fun x => predicate x = some true

/-- `explode` of one array. -/
def explodeCell : Cell β → List (Option β)
  | none => [none]
  | some [] => [none]
  | some xs => xs

/-- `list.slice`: the offset counts from the end when it is negative, and both ends are held within the array. -/
def listSlice {γ : Type} (offset : Int) (length : Nat) (xs : List γ) : List γ :=
  let start := if offset < 0 then offset + xs.length else offset
  let stop := start + length
  (xs.drop start.toNat).take (stop.toNat - start.toNat)

inductive ArrayError where
  /-- `list.get` out of bounds. -/
  | outOfBounds
  /-- A column named in `list.eval`. -/
  | namedColumn
  deriving DecidableEq

/-- `list.get`. -/
def listGet (index : Int) (xs : List (Option β)) : Except ArrayError (Option β) :=
  let position := if index < 0 then index + xs.length else index
  if 0 ≤ position then
    match xs[position.toNat]? with
    | some x => .ok x
    | none => .error .outOfBounds
  else .error .outOfBounds

/-- What `col.first()` is in `list.eval`: the engine refuses it, or takes the first value of the column. -/
structure ListEval (β : Type) where
  first : List (Option β) → Option (Option β)
  first_eq : ∀ values value, first values = some value → values.head? = some value

/-! ## The converters -/

/-- The functions, each with its arguments row by row. A literal is the same for all rows. -/
inductive ArrayCall (β : Type) where
  | arrayRemoveLiteral (arrays : List (Cell β)) (element : Option β)
  | arrayRemoveColumn (rows : List (Cell β × Option β))
  | flatten (arrays : List (Option (List (Cell β))))
  | slice (rows : List (Cell β × Int × Nat))
  | elementAt (rows : List (Cell β × Int))

inductive ResultColumn (β : Type) where
  | arrays (cells : List (Cell β))
  | elements (cells : List (Option β))

/-- `pl.when(index > 0).then(index - 1).otherwise(index)`. -/
def adjustedIndex (index : Int) : Int := if 0 < index then index - 1 else index

/-- `_convert_array_remove_expr`, on one array. -/
def removeCell [DecidableEq β] (element : Option β) (cell : Cell β) : Cell β :=
  cell.map (filterExpr fun x => ne x element)

/-- `_convert_flatten_expr`, on one array. -/
def flattenCell (cell : Option (List (Cell β))) : Cell β := cell.map fun inner => inner.flatMap explodeCell

/-- `_convert_array_slice_expr`, on one array. -/
def sliceCell (start : Int) (length : Nat) (cell : Cell β) : Cell β := cell.map (listSlice (adjustedIndex start) length)

/-- `_convert_element_at_expr`, on one array. -/
def elementAtCell (index : Int) : Cell β → Except ArrayError (Option β)
  | none => .ok none
  | some xs => listGet (adjustedIndex index) xs

/-- The column that a call is converted to. -/
def ArrayCall.convert [DecidableEq β] (engine : ListEval β) : ArrayCall β → Except ArrayError (ResultColumn β)
  | .arrayRemoveLiteral arrays element => .ok (.arrays (arrays.map (removeCell element)))
  | .arrayRemoveColumn rows =>
    match engine.first (rows.map Prod.snd) with
    | none => .error .namedColumn
    | some element => .ok (.arrays (rows.map fun row => removeCell element row.1))
  | .flatten arrays => .ok (.arrays (arrays.map flattenCell))
  | .slice rows => .ok (.arrays (rows.map fun row => sliceCell row.2.1 row.2.2 row.1))
  | .elementAt rows => (rows.mapM fun row => elementAtCell row.2 row.1).map .elements

/-! ## What is documented -/

/-- The elements other than a value. A null is kept, and nothing is equal to a null value. -/
def withoutElement [DecidableEq β] (element : Option β) (xs : List (Option β)) : List (Option β) :=
  xs.filter fun x => x = none ∨ x ≠ element

/-- The position of an index that counts from one, or from the end. -/
def positionOf (index : Int) (length : Nat) : Int := if 0 < index then index - 1 else length + index

/-- The run of elements from an index on: those at the next positions that the array has. -/
def runFrom {γ : Type} (start : Int) (length : Nat) (xs : List γ) : List γ :=
  ((xs.zipIdx).filter fun entry => positionOf start xs.length ≤ entry.2 ∧ entry.2 < positionOf start xs.length + length).map
    Prod.fst

/-- The index is one of the array's. -/
def InBounds (index : Int) (length : Nat) : Prop := (1 ≤ index ∧ index ≤ length) ∨ (-length ≤ index ∧ index ≤ -1)

instance (index : Int) (length : Nat) : Decidable (InBounds index length) :=
  inferInstanceAs (Decidable ((1 ≤ index ∧ index ≤ length) ∨ (-length ≤ index ∧ index ≤ -1)))

/-- The element of an index, or null. -/
def elementOf (index : Int) (xs : List (Option β)) : Option β :=
  if InBounds index xs.length then (xs[(positionOf index xs.length).toNat]?).join else none

/-- What the row of a result is to be. A null inner array may make the result null or contribute nothing. Nothing is said of a
    run from the index 0. -/
def FlattenedTo (inner : List (Cell β)) (result : Cell β) : Prop :=
  result = some (inner.reduceOption.flatten) ∨ (none ∈ inner ∧ result = none)

/-- The documented value of a call, row by row; all of them are null on a null array. -/
def ArrayCall.Documented [DecidableEq β] : ArrayCall β → ResultColumn β → Prop
  | .arrayRemoveLiteral arrays element, .arrays cells =>
    List.Forall₂ (fun array cell => cell = array.map (withoutElement element)) arrays cells
  | .arrayRemoveColumn rows, .arrays cells =>
    List.Forall₂ (fun row cell => cell = row.1.map (withoutElement row.2)) rows cells
  | .flatten arrays, .arrays cells =>
    List.Forall₂ (fun array cell => (array = none → cell = none) ∧ ∀ inner, array = some inner → FlattenedTo inner cell)
      arrays cells
  | .slice rows, .arrays cells =>
    List.Forall₂ (fun row cell => (row.1 = none → cell = none) ∧
      ∀ xs, row.1 = some xs → row.2.1 ≠ 0 → cell = some (runFrom row.2.1 row.2.2 xs)) rows cells
  | .elementAt rows, .elements cells =>
    List.Forall₂ (fun row cell => cell = row.1.bind (elementOf row.2)) rows cells
  | _, _ => False

/-- The call returns what is documented. -/
def ArrayCall.Agrees [DecidableEq β] (engine : ListEval β) (call : ArrayCall β) : Prop :=
  ∃ result, call.convert engine = .ok result ∧ call.Documented result

/-- An array on which filtering by `value` is removing `element`. -/
def RemovesAlike (value element : Option β) (xs : List (Option β)) : Prop :=
  none ∉ xs ∧ ∀ x ∈ xs, (value = none ∨ x = value) ↔ x = element

/-- When a call agrees: no element to remove from is null (and none is there, if the value is null), no inner array is null or
    empty, and each index is one of its array's (or is 0, where the first element is null). -/
def ArrayCall.Plain (engine : ListEval β) : ArrayCall β → Prop
  | .arrayRemoveLiteral arrays element => ∀ xs, some xs ∈ arrays → none ∉ xs ∧ (element = none → xs = [])
  | .arrayRemoveColumn rows => ∃ value, engine.first (rows.map Prod.snd) = some value ∧
      ∀ xs element, (some xs, element) ∈ rows → RemovesAlike value element xs
  | .flatten arrays => ∀ inner, some inner ∈ arrays → none ∉ inner ∧ some [] ∉ inner
  | .slice _ => True
  | .elementAt rows => ∀ xs index, (some xs, index) ∈ rows →
      InBounds index xs.length ∨ (index = 0 ∧ xs.head? = some none)

/-! ## Each function on one array -/

variable {γ : Type}

/-- Two filters agree on a list when their predicates do. -/
theorem filter_eq_filter_iff {p q : γ → Bool} {xs : List γ} : xs.filter p = xs.filter q ↔ ∀ x ∈ xs, p x = q x := by
  constructor
  · intro h x hx
    rw [Bool.eq_iff_iff]
    constructor
    · intro hp
      exact (List.mem_filter.mp (h ▸ List.mem_filter.mpr ⟨hx, hp⟩)).2
    · intro hq
      exact (List.mem_filter.mp (h ▸ List.mem_filter.mpr ⟨hx, hq⟩ : x ∈ xs.filter p)).2
  · exact List.filter_congr

theorem removeCell_eq_iff [DecidableEq β] {value element : Option β} {xs : List (Option β)} :
    removeCell value (some xs) = some (withoutElement element xs) ↔ RemovesAlike value element xs := by
  rw [removeCell, Option.map_some, Option.some_inj, filterExpr, withoutElement, filter_eq_filter_iff]
  constructor
  · intro h
    have hnone : none ∉ xs := by
      intro hmem
      have hkept := h none hmem
      simp [ne] at hkept
    refine ⟨hnone, fun x hx => ?_⟩
    cases x with
    | none => exact absurd hx hnone
    | some y =>
      have hkept := h (some y) hx
      cases value with
      | none => simpa [ne] using hkept
      | some v =>
        simp only [ne, Option.some.injEq, decide_eq_true_eq, reduceCtorEq, false_or] at hkept ⊢
        simpa [not_iff_not] using hkept
  · rintro ⟨hnone, h⟩ x hx
    cases x with
    | none => exact absurd hx hnone
    | some y =>
      have hsame := h (some y) hx
      cases value with
      | none => simpa [ne] using hsame
      | some v =>
        simp only [Option.some.injEq, reduceCtorEq, false_or] at hsame
        simp [ne, hsame]

theorem removesAlike_self_iff {element : Option β} {xs : List (Option β)} :
    RemovesAlike element element xs ↔ none ∉ xs ∧ (element = none → xs = []) := by
  constructor
  · rintro ⟨hnone, h⟩
    refine ⟨hnone, ?_⟩
    rintro rfl
    apply List.eq_nil_iff_forall_not_mem.mpr
    intro x hx
    have heq := (h x hx).mp (Or.inl rfl)
    exact hnone (heq ▸ hx)
  · rintro ⟨hnone, h⟩
    refine ⟨hnone, fun x hx => ⟨?_, Or.inr⟩⟩
    rintro (hnull | heq)
    · rw [h hnull] at hx
      cases hx
    · exact heq

/-- Exploding adds a null for each inner array that has nothing in it. -/
theorem length_flatMap_explodeCell (inner : List (Cell β)) :
    inner.reduceOption.flatten.length ≤ (inner.flatMap explodeCell).length ∧
      ((inner.flatMap explodeCell).length = inner.reduceOption.flatten.length → none ∉ inner ∧ some [] ∉ inner) := by
  induction inner with
  | nil => exact ⟨Nat.le_refl 0, fun _ => ⟨List.not_mem_nil, List.not_mem_nil⟩⟩
  | cons cell inner ih =>
    obtain ⟨hle, hplain⟩ := ih
    rw [List.flatMap_cons, List.length_append]
    match cell with
    | none =>
      rw [List.reduceOption_cons_of_none]
      have hone : (explodeCell (none : Cell β)).length = 1 := rfl
      exact ⟨by omega, fun h => by omega⟩
    | some [] =>
      rw [List.reduceOption_cons_of_some, List.flatten_cons, List.length_append]
      have hone : (explodeCell (some [] : Cell β)).length = 1 := rfl
      have hzero : ([] : List (Option β)).length = 0 := rfl
      exact ⟨by omega, fun h => by omega⟩
    | some (x :: xs) =>
      rw [List.reduceOption_cons_of_some, List.flatten_cons, List.length_append]
      have hsame : (explodeCell (some (x :: xs))).length = (x :: xs).length := rfl
      refine ⟨by omega, fun h => ?_⟩
      obtain ⟨hnone, hempty⟩ := hplain (by omega)
      simp [hnone, hempty]

theorem flattenCell_iff {inner : List (Cell β)} :
    FlattenedTo inner (flattenCell (some inner)) ↔ none ∉ inner ∧ some [] ∉ inner := by
  have hcell : flattenCell (some inner) = some (inner.flatMap explodeCell) := rfl
  rw [FlattenedTo, hcell, Option.some_inj]
  constructor
  · rintro (heq | ⟨-, hnull⟩)
    · exact (length_flatMap_explodeCell inner).2 (congrArg List.length heq)
    · cases hnull
  · rintro ⟨hnone, hempty⟩
    left
    induction inner with
    | nil => rfl
    | cons cell inner ih =>
      rw [List.mem_cons, not_or] at hnone hempty
      rw [List.flatMap_cons, ih rfl hnone.2 hempty.2]
      match cell, hnone.1, hempty.1 with
      | none, hne, _ => exact absurd rfl hne
      | some [], _, hne => exact absurd rfl hne
      | some (x :: xs), _, _ => rfl

/-- The items whose positions lie in an interval. -/
theorem filter_zipIdx (start stop : Int) (xs : List γ) (n : Nat) :
    ((xs.zipIdx n).filter fun entry => start ≤ entry.2 ∧ entry.2 < stop).map Prod.fst =
      (xs.drop (start - n).toNat).take ((stop - n).toNat - (start - n).toNat) := by
  induction xs generalizing n with
  | nil => simp
  | cons x xs ih =>
    have hstart : (start - (n + 1 : Nat)).toNat = (start - n).toNat - 1 := by omega
    have hstop : (stop - (n + 1 : Nat)).toNat = (stop - n).toNat - 1 := by omega
    rw [List.zipIdx_cons]
    by_cases hin : start ≤ n ∧ (n : Int) < stop
    · have hzero : (start - n).toNat = 0 := by omega
      obtain ⟨m, hm⟩ : ∃ m, (stop - n).toNat = m + 1 := ⟨(stop - n).toNat - 1, by omega⟩
      rw [List.filter_cons_of_pos (by simpa using hin), List.map_cons, ih, hstart, hstop, hzero, hm]
      simp
    · rw [List.filter_cons_of_neg (by simpa using hin), ih, hstart, hstop]
      by_cases hlt : (n : Int) < start
      · obtain ⟨m, hm⟩ : ∃ m, (start - n).toNat = m + 1 := ⟨(start - n).toNat - 1, by omega⟩
        rw [hm, List.drop_succ_cons, Nat.add_sub_cancel]
        congr 1
        omega
      · have hzero : (stop - n).toNat = 0 := by omega
        rw [hzero]
        simp

theorem listSlice_eq_runFrom {start : Int} (h : start ≠ 0) (length : Nat) (xs : List γ) :
    listSlice (adjustedIndex start) length xs = runFrom start length xs := by
  have hposition : (if adjustedIndex start < 0 then adjustedIndex start + xs.length else adjustedIndex start) =
      positionOf start xs.length := by
    unfold adjustedIndex positionOf
    split <;> split <;> omega
  unfold listSlice runFrom
  rw [hposition, filter_zipIdx]
  simp

theorem elementAtCell_eq_iff {index : Int} {xs : List (Option β)} :
    elementAtCell index (some xs) = .ok (elementOf index xs) ↔
      InBounds index xs.length ∨ (index = 0 ∧ xs.head? = some none) := by
  rcases Int.lt_trichotomy index 0 with hneg | rfl | hpos
  · -- from the end
    have hadjusted : adjustedIndex index = index := if_neg (by omega)
    have hposition : positionOf index xs.length = index + xs.length := by
      unfold positionOf
      omega
    rw [elementAtCell, hadjusted, elementOf, hposition, listGet]
    simp only [hneg, if_true]
    by_cases hin : InBounds index xs.length
    · have hlt : (index + xs.length).toNat < xs.length := by
        unfold InBounds at hin
        omega
      have hge : 0 ≤ index + xs.length := by
        unfold InBounds at hin
        omega
      rw [if_pos hge, if_pos hin, List.getElem?_eq_getElem hlt]
      simp [hin]
    · have hlow : ¬ 0 ≤ index + xs.length := by
        unfold InBounds at hin
        omega
      rw [if_neg hlow]
      simp only [reduceCtorEq, hin, false_or, false_iff, not_and]
      omega
  · -- the first element, where null is expected
    have hout : ∀ length, ¬ InBounds 0 length := by
      unfold InBounds
      omega
    have hadjusted : adjustedIndex 0 = 0 := rfl
    rw [elementAtCell, hadjusted, elementOf, if_neg (hout _), listGet]
    cases xs with
    | nil => simp [hout]
    | cons x xs => simp [hout]
  · have hadjusted : adjustedIndex index = index - 1 := if_pos hpos
    have hposition : positionOf index xs.length = index - 1 := if_pos hpos
    have hge : 0 ≤ index - 1 := by omega
    rw [elementAtCell, hadjusted, elementOf, hposition, listGet]
    simp only [Int.not_lt.mpr hge, if_false, hge, if_true]
    by_cases hin : InBounds index xs.length
    · have hlt : (index - 1).toNat < xs.length := by
        unfold InBounds at hin
        omega
      rw [if_pos hin, List.getElem?_eq_getElem hlt]
      simp [hin]
    · have hle : xs.length ≤ (index - 1).toNat := by
        unfold InBounds at hin
        omega
      rw [List.getElem?_eq_none hle]
      simp only [reduceCtorEq, hin, false_or, false_iff, not_and]
      omega

/-! ## The functions on a column -/

/-- A column that is computed row by row. -/
theorem forall₂_map_iff {δ : Type} {R : γ → δ → Prop} {f : γ → δ} {xs : List γ} :
    List.Forall₂ R xs (xs.map f) ↔ ∀ x ∈ xs, R x (f x) := by
  rw [List.forall₂_map_right_iff, List.forall₂_same]

/-- A call agrees with its documentation exactly when none of the kernels' own rules shows. -/
theorem arrayFunctions_agree_iff [DecidableEq β] (engine : ListEval β) (call : ArrayCall β) :
    call.Agrees engine ↔ call.Plain engine := by
  cases call with
  | arrayRemoveLiteral arrays element =>
    constructor
    · rintro ⟨result, hresult, hdocumented⟩ xs hxs
      cases hresult
      exact removesAlike_self_iff.mp (removeCell_eq_iff.mp (forall₂_map_iff.mp hdocumented _ hxs))
    · intro h
      refine ⟨_, rfl, forall₂_map_iff.mpr fun array harray => ?_⟩
      cases array with
      | none => rfl
      | some xs => exact removeCell_eq_iff.mpr (removesAlike_self_iff.mpr (h xs harray))
  | arrayRemoveColumn rows =>
    constructor
    · rintro ⟨result, hresult, hdocumented⟩
      dsimp only [ArrayCall.convert] at hresult
      split at hresult
      · cases hresult
      next value hvalue =>
        cases hresult
        have hrows := forall₂_map_iff.mp hdocumented
        exact ⟨value, hvalue, fun xs element hmem => removeCell_eq_iff.mp (hrows _ hmem)⟩
    · rintro ⟨value, hvalue, h⟩
      refine ⟨.arrays (rows.map fun row => removeCell value row.1), ?_, forall₂_map_iff.mpr fun row hrow => ?_⟩
      · dsimp only [ArrayCall.convert]
        rw [hvalue]
      · obtain ⟨array, element⟩ := row
        cases array with
        | none => rfl
        | some xs => exact removeCell_eq_iff.mpr (h xs element hrow)
  | flatten arrays =>
    constructor
    · rintro ⟨result, hresult, hdocumented⟩ inner hinner
      cases hresult
      exact flattenCell_iff.mp ((forall₂_map_iff.mp hdocumented _ hinner).2 inner rfl)
    · intro h
      refine ⟨_, rfl, forall₂_map_iff.mpr fun array harray => ⟨?_, ?_⟩⟩
      · rintro rfl
        rfl
      · rintro inner rfl
        exact flattenCell_iff.mpr (h inner harray)
  | slice rows =>
    refine iff_of_true ⟨_, rfl, forall₂_map_iff.mpr fun row _ => ⟨fun hnull => ?_, fun xs hxs hstart => ?_⟩⟩ trivial
    · rw [sliceCell, hnull]
      rfl
    · rw [sliceCell, hxs, Option.map_some, listSlice_eq_runFrom hstart]
  | elementAt rows =>
    have hresult : (ArrayCall.elementAt rows).Agrees engine ↔
        ∀ row ∈ rows, elementAtCell row.2 row.1 = .ok (row.1.bind (elementOf row.2)) := by
      constructor
      · rintro ⟨result, hconvert, hdocumented⟩
        obtain ⟨cells, hcells, rfl⟩ := Except.map_eq_ok.mp hconvert
        have heq : cells = rows.map fun row => row.1.bind (elementOf row.2) := by
          have hpairs := (List.forall₂_map_left_iff (f := fun row : Cell β × Int => row.1.bind (elementOf row.2))).mpr
            (hdocumented.imp fun _ _ h => h.symm)
          rw [List.forall₂_eq_eq_eq] at hpairs
          exact hpairs.symm
        rw [heq, Except.mapM_eq_ok, List.forall₂_map_right_iff, List.forall₂_same] at hcells
        exact hcells
      · intro h
        refine ⟨.elements (rows.map fun row => row.1.bind (elementOf row.2)), Except.map_eq_ok.mpr ⟨_, ?_, rfl⟩, ?_⟩
        · exact Except.mapM_eq_ok_map h
        · exact forall₂_map_iff.mpr fun _ _ => rfl
    rw [hresult]
    constructor
    · intro h xs index hmem
      exact elementAtCell_eq_iff.mp (h _ hmem)
    · rintro h ⟨array, index⟩ hmem
      cases array with
      | none => rfl
      | some xs => exact elementAtCell_eq_iff.mpr (h xs index hmem)

end

/-! ## An empty inner array -/

/-- An engine that refuses columns in `list.eval`. -/
def namesRefused : ListEval Int where
  first _ := none
  first_eq _ _ h := by cases h

/-- The empty array becomes a null among the elements. -/
theorem flatten_adds_null : ¬ ∀ (engine : ListEval Int) (call : ArrayCall Int), call.Agrees engine := by
  intro h
  obtain ⟨result, hresult, hdocumented⟩ := h namesRefused (.flatten [some [some [some 1], some []]])
  cases hresult
  have hflattened := (forall₂_map_iff.mp hdocumented _ List.mem_cons_self).2 _ rfl
  exact (flattenCell_iff.mp hflattened).2 (by decide)

end ArrayFunctions

end Fenic
