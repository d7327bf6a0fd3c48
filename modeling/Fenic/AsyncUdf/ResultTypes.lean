import Mathlib
import Fenic.TypeInference.Widening

/-!
# `AsyncUdf.ResultTypes` — the check of what an asynchronous function returns

A result that counts as true is given a type by inference, and passes when that is the declared type. Other results pass
without a check. `Conforms` is what the declared type asks for: nulls are welcome everywhere, integers are read as floats,
and a dict may lack fields.

What inference gives the declared type to does conform (`conforms_of_typeOf`), but for integers without a place in 64 bits.
The converse fails for every type with a double in it, for nulls and empty lists inside, and for fields in another order.
-/

namespace Fenic

namespace AsyncUdf

open Mcp TypeInference

/-! ## Conforming results -/

/-- An integer of 64 bits. -/
abbrev isInt64 (n : Int) : Prop := -2 ^ 63 ≤ n ∧ n < 2 ^ 63

/-- A value has a place in a column of a type. -/
inductive Conforms : DataType → PyObj → Prop where
  | null (t : DataType) : Conforms t .none
  | bool (b : Bool) : Conforms .booleanType (.bool b)
  | int {n : Int} : isInt64 n → Conforms .integerType (.int n)
  | intFloat {n : Int} : isInt64 n → Conforms .floatType (.int n)
  | intDouble {n : Int} : isInt64 n → Conforms .doubleType (.int n)
  | float (x : PyFloat) : Conforms .floatType (.float x)
  | double (x : PyFloat) : Conforms .doubleType (.float x)
  | str (s : String) : Conforms .stringType (.str s)
  | date (isoformat : String) : Conforms .dateType (.date isoformat)
  | timestamp (isoformat : String) : Conforms .timestampType (.datetime isoformat)
  | array {t : DataType} {items : List PyObj} : (∀ item ∈ items, Conforms t item) → Conforms (.arrayType t) (.list items)
  | struct {fields : Fields} {entries : List (String × PyObj)} :
      (∀ n v, entries.lookup n = some v → fields.lookup n ≠ none) →
      (∀ n v t, entries.lookup n = some v → fields.lookup n = some t → Conforms t v) →
      Conforms (.structType fields) (.dict entries)

/-- The truth of values of other types, and the series that the results are put into: whether it takes a value, or raises. It
takes what conforms. -/
structure ResultSeries where
  foreign : String → Bool
  accepts : DataType → PyObj → Bool
  takes : ∀ t v, Conforms t v → accepts t v = true

/-! ## The check -/

/-- `if result`. -/
def isTrue (foreign : String → Bool) : PyObj → Bool
  | .none => false
  | .bool b => b
  | .int n => n != 0
  | .float x => decide (x ≠ .finite 0)
  | .str s => s != ""
  | .datetime _ => true
  | .date _ => true
  | .list items => !items.isEmpty
  | .dict entries => !entries.isEmpty
  | .other typeName => foreign typeName

/-- What a call gives: a value or an exception. -/
inductive CallResult where
  | value (v : PyObj)
  | exception

inductive ColumnError where
  | check (e : McpError)
  /-- The series raises. -/
  | series

/-- The body of the loop in `results_generator`. -/
def checkResult (foreign : String → Bool) (returnType : DataType) : CallResult → Except McpError PyObj
  | .exception => .ok .none
  | .value result =>
    if isTrue foreign result then do
      let inferredType ← inferDtypeFromPyobj "" result
      if inferredType ≠ returnType then
        .error (.typeError (s!"Expected {returnType}, got {inferredType} in async UDF"))
      else .ok result
    else .ok result

variable (S : ResultSeries)

/-- A row of the column: the checked result, where the series takes it. -/
def row (returnType : DataType) (result : CallResult) : Except ColumnError PyObj :=
  match checkResult S.foreign returnType result with
  | .error e => .error (.check e)
  | .ok v => if S.accepts returnType v then .ok v else .error .series

/-- `execute_async_udf`, after the calls. The first error ends it. -/
def column (returnType : DataType) (results : List CallResult) : Except ColumnError (List PyObj) :=
  results.mapM (row S returnType)

/-- What is asked of a row: a value that conforms is held, any other one is an error, and so is no exception. -/
def RowMeets (returnType : DataType) : CallResult → Prop
  | .exception => row S returnType .exception = .ok .none
  | .value v => (Conforms returnType v → row S returnType (.value v) = .ok v) ∧
      (¬Conforms returnType v → ∃ e, row S returnType (.value v) = .error e)

/-! ## What passes -/

variable {t : DataType} {v : PyObj}

theorem checkResult_value {foreign : String → Bool} {w : PyObj} :
    checkResult foreign t (.value v) = .ok w ↔ w = v ∧ (isTrue foreign v = true → typeOf v = some t) := by
  rw [checkResult]
  split
  next htrue =>
      rw [Except.bind_eq_ok]
      constructor
      · rintro ⟨inferred, hinferred, h⟩
        split at h
        next => cases h
        next heq =>
            cases h
            rw [← not_ne_iff.mp heq]
            exact ⟨rfl, fun _ => inferDtypeFromPyobj_eq_ok.mp hinferred⟩
      · rintro ⟨rfl, h⟩
        exact ⟨t, inferDtypeFromPyobj_eq_ok.mpr (h htrue), if_neg (not_not_intro rfl)⟩
  next hfalse =>
      constructor
      · intro h
        cases h
        exact ⟨rfl, fun htrue => absurd htrue hfalse⟩
      · rintro ⟨rfl, -⟩
        rfl

variable {S}

theorem row_value {w : PyObj} :
    row S t (.value v) = .ok w ↔ w = v ∧ (isTrue S.foreign v = true → typeOf v = some t) ∧ S.accepts t v = true := by
  rw [row]
  constructor
  · intro h
    split at h
    next => cases h
    next hcheck =>
        obtain ⟨rfl, hpasses⟩ := checkResult_value.mp hcheck
        split at h
        next haccepts =>
            cases h
            exact ⟨rfl, hpasses, haccepts⟩
        next => cases h
  · rintro ⟨rfl, hpasses, haccepts⟩
    rw [checkResult_value.mpr ⟨rfl, hpasses⟩]
    exact if_pos haccepts

theorem row_exception (t : DataType) : row S t .exception = .ok .none := by
  show (if S.accepts t .none then Except.ok PyObj.none else .error ColumnError.series) = _
  exact if_pos (S.takes t .none (.null t))

theorem row_error_iff :
    (∃ e, row S t (.value v) = .error e) ↔
      (isTrue S.foreign v = true ∧ typeOf v ≠ some t) ∨ S.accepts t v = false := by
  have hok : (∃ e, row S t (.value v) = .error e) ↔ row S t (.value v) ≠ .ok v := by
    cases hrow : row S t (.value v) with
    | error e => exact iff_of_true ⟨e, rfl⟩ nofun
    | ok w => exact iff_of_false nofun fun h => h (by rw [(row_value.mp hrow).1])
  rw [hok, Ne, row_value, and_iff_right rfl, not_and_or, Classical.not_imp, Bool.not_eq_true]

/-! ## What inference gives the type to -/

mutual

/-- All integers in the value have 64 bits. -/
def IntsFit : PyObj → Prop
  | .int n => isInt64 n
  | .list items => ItemsFit items
  | .dict entries => EntriesFit entries
  | _ => True

def ItemsFit : List PyObj → Prop
  | [] => True
  | item :: items => IntsFit item ∧ ItemsFit items

def EntriesFit : List (String × PyObj) → Prop
  | [] => True
  | (_, v) :: entries => IntsFit v ∧ EntriesFit entries

end

/-- The fields of an inferred struct have the types of the entries. -/
theorem lookup_inferEntries {path : String} {entries : List (String × PyObj)} {fields : Fields}
    (h : inferEntries path entries = .ok fields) {n : String} (hv : entries.lookup n = some v) :
    ∃ t, fields.lookup n = some t ∧ typeOf v = some t := by
  induction entries generalizing fields with
  | nil => cases hv
  | cons entry entries ih =>
    rw [inferEntries] at h
    simp only [Except.bind_eq_ok, Except.pure_eq_ok] at h
    obtain ⟨t, ht, rest, hrest, heq⟩ := h
    cases heq
    rw [List.lookup_cons] at hv
    split at hv
    next hkey =>
        cases hv
        rw [beq_iff_eq.mp hkey]
        exact ⟨t, List.lookup_cons_self, inferDtypeFromPyobj_eq_ok.mp ht⟩
    next hkey =>
        rw [List.lookup_cons, hkey]
        exact ih hrest hv

theorem typeOf_dict {entries : List (String × PyObj)} (h : typeOf (.dict entries) = some t) :
    ∃ fields, t = .structType fields ∧
      ∀ n v, entries.lookup n = some v → ∃ s, fields.lookup n = some s ∧ typeOf v = some s := by
  rw [typeOf, toOption_eq_some, inferDtypeFromPyobj] at h
  obtain ⟨fields, hfields, rfl⟩ := Except.map_eq_ok.mp h
  exact ⟨fields, rfl, fun n v hv => lookup_inferEntries hfields hv⟩

/-- A type that only widens to itself. -/
theorem eq_of_widens {s : DataType} (hs : ∀ t, kind s = kind t → t = s) (h : Widens s t) : t = s := hs t h.kind_eq

mutual

/-- **A value conforms to every type that its own type widens to.** -/
theorem conforms_of_widens : ∀ (v : PyObj) (s t : DataType), typeOf v = some s → Widens s t → IntsFit v → Conforms t v
  | .none, _, _, h, _, _ => nomatch h
  | .other _, _, _, h, _, _ => nomatch h
  | .bool b, s, t, h, hst, _ => by
    cases h
    rw [eq_of_widens (fun t ht => by cases t <;> first | rfl | cases ht) hst]
    exact .bool b
  | .str text, s, t, h, hst, _ => by
    cases h
    rw [eq_of_widens (fun t ht => by cases t <;> first | rfl | cases ht) hst]
    exact .str text
  | .date text, s, t, h, hst, _ => by
    cases h
    rw [eq_of_widens (fun t ht => by cases t <;> first | rfl | cases ht) hst]
    exact .date text
  | .datetime text, s, t, h, hst, _ => by
    cases h
    rw [eq_of_widens (fun t ht => by cases t <;> first | rfl | cases ht) hst]
    exact .timestamp text
  | .int n, s, t, h, hst, hfit => by
    cases h
    have hkind : DataType.integerType = kind t := hst.kind_eq
    cases t with
    | integerType => exact .int hfit
    | floatType => exact .intFloat hfit
    | doubleType => exact .intDouble hfit
    | _ => cases hkind
  | .float x, s, t, h, hst, _ => by
    cases h
    have hkind : DataType.integerType = kind t := hst.kind_eq
    cases t with
    | integerType => exact absurd (@Widens.ofIndex_le 1 0 (by decide) (by decide) hst) (by decide)
    | floatType => exact .float x
    | doubleType => exact .double x
    | _ => cases hkind
  | .list items, s, t, h, hst, hfit => by
    obtain ⟨first, rest, e, htypes, he, rfl⟩ := typeOf_list.mp h
    obtain ⟨t, rfl⟩ := array_of_kind hst.kind_eq
    refine .array fun item hitem => ?_
    have hsome : typeOf item ∈ (first :: rest).map some := htypes ▸ List.mem_map_of_mem hitem
    obtain ⟨u, hu, hitemType⟩ := List.mem_map.mp hsome
    -- the element type is above the type of each element
    have hwidens : Widens u t := ((foldlM_isLeast he).upper u hu).trans hst.of_array
    exact items_conform items hfit item hitem u t hitemType.symm hwidens
  | .dict entries, s, t, h, hst, hfit => by
    obtain ⟨fields, rfl, hfields⟩ := typeOf_dict h
    obtain ⟨fields', rfl⟩ := struct_of_kind hst.kind_eq
    refine .struct (fun n v hv => ?_) fun n v t hv ht => ?_
    · obtain ⟨s, hs, -⟩ := hfields n v hv
      obtain ⟨t, ht, -⟩ := hst.of_struct hs
      rw [ht]
      nofun
    · obtain ⟨s, hs, hvalue⟩ := hfields n v hv
      obtain ⟨t', ht', hwidens⟩ := hst.of_struct hs
      rw [ht] at ht'
      cases ht'
      exact entries_conform entries hfit n v hv s t hvalue hwidens

theorem items_conform : ∀ items : List PyObj, ItemsFit items → ∀ item ∈ items, ∀ s t, typeOf item = some s → Widens s t →
    Conforms t item
  | [], _, _, h => absurd h List.not_mem_nil
  | first :: items, hfit, item, hitem => by
    intro s t hs hst
    rcases List.mem_cons.mp hitem with heq | hitem
    · rw [heq] at hs ⊢
      exact conforms_of_widens first s t hs hst hfit.1
    · exact items_conform items hfit.2 item hitem s t hs hst

theorem entries_conform : ∀ entries : List (String × PyObj), EntriesFit entries → ∀ n v, entries.lookup n = some v →
    ∀ s t, typeOf v = some s → Widens s t → Conforms t v
  | [], _, _, _, h => nomatch h
  | (key, value) :: entries, hfit, n, v, hv => by
    intro s t hs hst
    rw [List.lookup_cons] at hv
    split at hv
    next =>
        cases hv
        exact conforms_of_widens value s t hs hst hfit.1
    next => exact entries_conform entries hfit.2 n v hv s t hs hst

end

theorem conforms_of_typeOf (h : typeOf v = some t) (hfit : IntsFit v) : Conforms t v :=
  conforms_of_widens v t t h (.refl t) hfit

/-! ## When the check is right -/

/-- What is true has the declared type by inference if it conforms. What does not conform is found out, by the check or by the
series; the check takes nothing that does not conform, integers beyond 64 bits apart. -/
structure IsChecked (S : ResultSeries) (t : DataType) (v : PyObj) : Prop where
  conforming : Conforms t v → isTrue S.foreign v = true → typeOf v = some t
  other : ¬Conforms t v → isTrue S.foreign v = true ∧ (IntsFit v ∨ typeOf v ≠ some t) ∨ S.accepts t v = false

theorem rowMeets_iff : RowMeets S t (.value v) ↔ IsChecked S t v := by
  constructor
  · rintro ⟨hheld, herror⟩
    refine ⟨fun hconforms => (row_value.mp (hheld hconforms)).2.1, fun hother => ?_⟩
    exact (row_error_iff.mp (herror hother)).imp (fun hcheck => ⟨hcheck.1, Or.inr hcheck.2⟩) id
  · rintro ⟨hconforming, hother⟩
    refine ⟨fun hconforms => row_value.mpr ⟨rfl, hconforming hconforms, S.takes t v hconforms⟩, fun hnot => ?_⟩
    refine row_error_iff.mpr ((hother hnot).imp (fun ⟨htrue, h⟩ => ⟨htrue, ?_⟩) id)
    exact h.elim (fun hfit htype => hnot (conforms_of_typeOf htype hfit)) id

/-! ## Columns -/

/-- What a row is to hold. -/
def held : CallResult → PyObj
  | .exception => .none
  | .value v => v

def ResultConforms (t : DataType) (result : CallResult) : Prop := Conforms t (held result)

/-- Where every row is right, the column holds the results if they all conform, and is an error otherwise. -/
theorem column_of_rows {results : List CallResult} (h : ∀ result ∈ results, RowMeets S t result) :
    ((∀ result ∈ results, ResultConforms t result) → column S t results = .ok (results.map held)) ∧
      ((∃ result ∈ results, ¬ResultConforms t result) → ∃ e, column S t results = .error e) := by
  constructor
  · intro hall
    refine Except.mapM_eq_ok.mpr (List.forall₂_map_right_iff.mpr (List.forall₂_same.mpr fun result hresult => ?_))
    cases result with
    | exception => exact row_exception t
    | value v => exact (h _ hresult).1 (hall _ hresult)
  · rintro ⟨result, hresult, hnot⟩
    cases hcolumn : column S t results with
    | error e => exact ⟨e, rfl⟩
    | ok values =>
      obtain ⟨w, -, hw⟩ := Rows.exists_right_of_forall₂ (Except.mapM_eq_ok.mp hcolumn) hresult
      cases result with
      | exception => exact absurd (.null t) hnot
      | value v =>
        obtain ⟨e, he⟩ := (h _ hresult).2 hnot
        rw [he] at hw
        cases hw

namespace ResultExamples

/-- A series that takes everything. -/
def series : ResultSeries where
  foreign _ := true
  accepts _ _ := true
  takes _ _ _ := rfl

/-- A record of an integer and a text. -/
def recordType : DataType := .structType [("status", .integerType), ("data", .stringType)]

theorem pair_conforms {fields : Fields} {key key' : String} {v v' : PyObj} {t t' : DataType} (ht : fields.lookup key = some t)
    (hv : Conforms t v) (ht' : fields.lookup key' = some t') (hv' : Conforms t' v') :
    Conforms (.structType fields) (.dict [(key, v), (key', v')]) := by
  have hentry : ∀ n w, [(key, v), (key', v')].lookup n = some w → ∃ u, fields.lookup n = some u ∧ Conforms u w := by
    intro n w hw
    rw [List.lookup_cons] at hw
    split at hw
    next hkey =>
        cases hw
        exact ⟨t, beq_iff_eq.mp hkey ▸ ht, hv⟩
    next =>
        rw [List.lookup_cons] at hw
        split at hw
        next hkey =>
            cases hw
            exact ⟨t', beq_iff_eq.mp hkey ▸ ht', hv'⟩
        next => cases hw
  refine .struct (fun n w hw => ?_) fun n w u hw hu => ?_
  · obtain ⟨u, hu, -⟩ := hentry n w hw
    rw [hu]
    nofun
  · obtain ⟨u', hu', hconforms⟩ := hentry n w hw
    rw [hu] at hu'
    cases hu'
    exact hconforms

end ResultExamples

end AsyncUdf

end Fenic
