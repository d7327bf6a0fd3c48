import Fenic.Lib.Except
import Fenic.Lib.Rows
import Fenic.Serde.ScalarValues
import Mathlib.Data.List.Nodup

/-!
# `Serde.ScalarCodec` — which Python values come back

A value is written and read by two recursions that follow its parts, so a value comes back exactly when its parts do.
What is lost is in the leaves: integers beyond 32 bits and surrogates are refused, with another error than that of an
unsupported type; a datetime loses its time zone; and one without a time zone comes back if the wall clock shows it, and
its microseconds survive the double.
-/

namespace Fenic

namespace Serde

open Expressions (PyFloat)
open SemanticOperators (PyString pyString)

/-! ## Equal values -/

/-- The same time of day with the same zone awareness: of two with a time zone the moments agree, of two without one the
    wall-clock times do, and the second is what the wall clock shows at the moment of the first. -/
def SameDateTime (zone : LocalZone) (d d' : DateTime) : Prop :=
  d.utcoffset.isSome = d'.utcoffset.isSome ∧ d.microseconds = d'.microseconds ∧
    (d.utcoffset = none → ∀ moment, zone.mktime d.wall d.fold = some moment →
      zone.localtime moment = some (d'.wall, d'.fold))

def Scalar.Same (zone : LocalZone) : Scalar → Scalar → Prop
  | .datetime d, .datetime d' => SameDateTime zone d d'
  | s, s' => s = s'

/-- Lists are equal item by item. Dicts are equal when they have the same keys, in any order, and equal values under
    each. -/
inductive Equal (zone : LocalZone) : PyValue → PyValue → Prop where
  | scalar {s s' : Scalar} : s.Same zone s' → Equal zone (.scalar s) (.scalar s')
  | list {items items' : List PyValue} : List.Forall₂ (Equal zone) items items' → Equal zone (.list items) (.list items')
  | dict {fields fields' : List (Scalar × PyValue)} : (fields.map Prod.fst).Perm (fields'.map Prod.fst) →
      (∀ field ∈ fields, ∀ field' ∈ fields', field.1 = field'.1 → Equal zone field.2 field'.2) →
      Equal zone (.dict fields) (.dict fields')

/-- The values of the supported types. No two entries of a dict have the same key. -/
inductive Supported : PyValue → Prop where
  | scalar (s : Scalar) : Supported (.scalar s)
  | list {items : List PyValue} : (∀ item ∈ items, Supported item) → Supported (.list items)
  | dict {fields : List (Scalar × PyValue)} : (fields.map Prod.fst).Nodup → (∀ field ∈ fields, Supported field.2) →
      Supported (.dict fields)

/-- What the two functions are for: a value is refused for its type, or it comes back. -/
def RoundTrips (zone : LocalZone) (v : PyValue) : Prop :=
  ∀ stack fieldName, (∃ typeName path, serializeScalarValue zone stack fieldName v = .error (.unsupportedType typeName path)) ∨
    ∃ m, serializeScalarValue zone stack fieldName v = .ok m ∧
      ∀ stack' fieldName', ∃ v', deserializeScalarValue zone stack' fieldName' m = .ok v' ∧ Equal zone v v'

/-! ## The values that do -/

def IsText (s : PyString) : Prop := ∀ c ∈ s, ¬ IsSurrogate c

instance : DecidablePred IsText := fun s => inferInstanceAs (Decidable (∀ c ∈ s, ¬ IsSurrogate c))

/-- A datetime without a time zone that the wall clock shows, and that some double is near. -/
def DateTime.Kept (zone : LocalZone) (d : DateTime) : Prop :=
  d.utcoffset = none ∧ (∃ moment fold, zone.localtime moment = some (d.wall, fold)) ∧
    ∃ moment, zone.mktime d.wall d.fold = some moment ∧ NearDouble (moment * 10 ^ 6 + d.microsecond)

def Scalar.Kept (zone : LocalZone) : Scalar → Prop
  | .str s => IsText s
  | .int n => -2 ^ 31 ≤ n ∧ n < 2 ^ 31
  | .datetime d => d.Kept zone
  | _ => True

inductive Kept (zone : LocalZone) : PyValue → Prop where
  | scalar {s : Scalar} : s.Kept zone → Kept zone (.scalar s)
  | list {items : List PyValue} : (∀ item ∈ items, Kept zone item) → Kept zone (.list items)
  | dict {fields : List (Scalar × PyValue)} : (∀ field ∈ fields, ∃ name, field.1 = .str name ∧ IsText name) →
      (∀ field ∈ fields, Kept zone field.2) → Kept zone (.dict fields)

/-! ## Errors -/

variable {α : Type}

theorem handleSerdeError_eq_ok {stack : List PyString} {body : Except SerdeError α} {a : α} :
    handleSerdeError stack body = .ok a ↔ body = .ok a := Except.mapError_eq_ok

theorem raising_eq_ok {x : Except Cause α} {a : α} : raising x = .ok a ↔ x = .ok a := Except.mapError_eq_ok

theorem raising_ne_unsupported (x : Except Cause α) (typeName path : PyString) :
    raising x ≠ .error (.unsupportedType typeName path) := by
  intro h
  cases x with
  | ok a => cases h
  | error cause => cases h

/-- Extending the path of an error does not change its kind. -/
theorem of_handle_unsupported {stack : List PyString} {body : Except SerdeError α} {typeName path : PyString}
    (h : handleSerdeError stack body = .error (.unsupportedType typeName path)) :
    ∃ path', body = .error (.unsupportedType typeName path') := by
  cases body with
  | ok a => cases h
  | error e =>
    cases e with
    | unsupportedType typeName' path' =>
      cases h
      exact ⟨path', rfl⟩
    | raised cause paths => cases h

/-! ## The recursions as lists of computations -/

section
variable (zone : LocalZone) (stack : List PyString)

theorem serializeElements_eq (items : List PyValue) :
    serializeElements zone stack items = items.mapM (serializeScalarValue zone stack (pyString "element")) := by
  induction items with
  | nil => rfl
  | cons item items ih =>
    rw [List.mapM_cons, ← ih]
    rfl

theorem deserializeElements_eq (elements : List ScalarValue) :
    deserializeElements zone stack elements = elements.mapM (deserializeScalarValue zone stack (pyString "element")) := by
  induction elements with
  | nil => rfl
  | cons element elements ih =>
    rw [List.mapM_cons, ← ih]
    rfl

theorem serializeValues_eq (fields : List (Scalar × PyValue)) :
    serializeValues zone stack fields =
      fields.map fun field => (field.1, serializeScalarValue zone stack (pyString "value") field.2) := by
  induction fields with
  | nil => rfl
  | cons field fields ih =>
    rw [List.map_cons, ← ih]
    rfl

/-- A field that is read. -/
def deserializeField (field : PyString × ScalarValue) : Except SerdeError (Scalar × PyValue) :=
  (deserializeScalarValue zone stack field.1 field.2).map fun value => (.str field.1, value)

theorem setField_of_not_mem {name : PyString} {value : PyValue} {fields : List (Scalar × PyValue)}
    (h : Scalar.str name ∉ fields.map Prod.fst) : setField name value fields = fields ++ [(.str name, value)] := by
  induction fields with
  | nil => rfl
  | cons field fields ih =>
    rw [List.map_cons, List.mem_cons, not_or] at h
    show (if field.1 = Scalar.str name then _ else _) = _
    rw [if_neg (Ne.symm h.1), ih h.2]
    rfl

/-- Fields with different names are appended in their order. -/
theorem deserializeFields_eq (result : List (Scalar × PyValue)) (fields : List (PyString × ScalarValue))
    (h : (result.map Prod.fst ++ fields.map fun field => Scalar.str field.1).Nodup) :
    deserializeFields zone stack result fields =
      (fields.mapM (deserializeField zone stack)).map fun values => result ++ values := by
  induction fields generalizing result with
  | nil =>
    show Except.ok result = Except.ok (result ++ [])
    rw [List.append_nil]
  | cons field fields ih =>
    obtain ⟨name, value⟩ := field
    rw [deserializeFields, List.mapM_cons]
    unfold deserializeField
    cases deserializeScalarValue zone stack name value with
    | error e => rfl
    | ok value' =>
      have hfresh : Scalar.str name ∉ result.map Prod.fst := by
        intro hmem
        exact (List.disjoint_of_nodup_append h) hmem (List.mem_cons_self)
      show deserializeFields zone stack (setField name value' result) fields = _
      rw [setField_of_not_mem hfresh, ih _ (by simpa using h)]
      show _ = Except.map _ (fields.mapM (deserializeField zone stack) >>= _)
      cases fields.mapM (deserializeField zone stack) with
      | error e => rfl
      | ok values =>
        show Except.ok (result ++ [(Scalar.str name, value')] ++ values) = _
        rw [List.append_assoc]
        rfl

end

/-! ## Leaves -/

variable {d : DateTime}

theorem fromTimeval_eq_ok {zone : LocalZone} {timeval : Int × Int} :
    fromTimeval zone timeval = .ok d ↔ ∃ wall fold, zone.localtime timeval.1 = some (wall, fold) ∧
      d = ⟨wall, Fin.ofNat 1000000 timeval.2.toNat, fold, none⟩ := by
  unfold fromTimeval
  cases zone.localtime timeval.1 with
  | none => simp
  | some shown =>
    obtain ⟨wall, fold⟩ := shown
    constructor
    · intro h
      cases h
      exact ⟨wall, fold, rfl, rfl⟩
    · rintro ⟨wall', fold', h, rfl⟩
      cases h
      rfl

/-- What is read never has a time zone. -/
theorem utcoffset_of_fromtimestamp {zone : LocalZone} {x : PyFloat} (h : fromtimestamp zone x = .ok d) :
    d.utcoffset = none := by
  cases x with
  | finite _ | negativeZero =>
    obtain ⟨wall, fold, -, rfl⟩ := fromTimeval_eq_ok.mp h
    rfl
  | infinity negative => cases h
  | nan => cases h

/-- Without a time zone the microseconds of the wall clock say everything. -/
theorem DateTime.microseconds_naive_iff {d' : DateTime} (h : d.utcoffset = none) (h' : d'.utcoffset = none) :
    d.microseconds = d'.microseconds ↔ d.wall = d'.wall ∧ d.microsecond = d'.microsecond := by
  unfold DateTime.microseconds
  rw [h, h', Fin.ext_iff]
  omega

theorem timeval_microsecond (x : Rat) : (Fin.ofNat 1000000 (toTimeval x).2.toNat : Fin 1000000).val = (toTimeval x).2 := by
  obtain ⟨-, hnonneg, hlt⟩ := toTimeval_spec x
  show (((toTimeval x).2.toNat % 1000000 : Nat) : Int) = (toTimeval x).2
  omega

theorem datetime_comesBack (zone : LocalZone) (d : DateTime) :
    (∃ x, timestamp zone d = .ok x ∧ ∃ d', fromtimestamp zone x = .ok d' ∧ SameDateTime zone d d') ↔ d.Kept zone := by
  constructor
  · rintro ⟨x, hx, d', hd', hzone, hmicros, hmoment⟩
    have hnaive' := utcoffset_of_fromtimestamp hd'
    have hnaive : d.utcoffset = none := by
      rw [hnaive'] at hzone
      exact Option.isSome_eq_false_iff.mp hzone |> Option.isNone_iff_eq_none.mp
    obtain ⟨hwall, hmicrosecond⟩ := (DateTime.microseconds_naive_iff hnaive hnaive').mp hmicros
    unfold timestamp at hx
    rw [hnaive] at hx
    cases hm : zone.mktime d.wall d.fold with
    | none =>
      rw [hm] at hx
      cases hx
    | some moment =>
      rw [hm] at hx
      cases hx
      obtain ⟨wall, fold, hshown, rfl⟩ := fromTimeval_eq_ok.mp hd'
      have hshown' := hmoment hnaive moment hm
      -- both moments show the same, so the seconds came back
      have hseconds := zone.localtime_injective hshown hshown'
      have hmicro : (toTimeval (naiveTimestamp moment d.microsecond)).2 = (d.microsecond : Nat) := by
        rw [← timeval_microsecond]
        exact congrArg (fun n : Fin 1000000 => ((n : Nat) : Int)) hmicrosecond.symm
      have hshows : zone.localtime moment = some (d.wall, fold) := by
        rw [hwall]
        exact hshown'
      refine ⟨hnaive, ⟨moment, fold, hshows⟩, moment, hm, ?_⟩
      apply (toTimeval_naiveTimestamp_iff moment d.microsecond.isLt).mp
      exact Prod.ext hseconds hmicro
  · rintro ⟨hnaive, ⟨moment', fold', hshows⟩, moment, hm, hnear⟩
    have hback := (toTimeval_naiveTimestamp_iff moment d.microsecond.isLt).mpr hnear
    obtain ⟨fold, hshown⟩ := zone.localtime_mktime hm hshows
    have hmicro : (Fin.ofNat 1000000 ((d.microsecond : Nat) : Int).toNat : Fin 1000000) = d.microsecond := by
      simp
    refine ⟨.finite (naiveTimestamp moment d.microsecond), ?_, ⟨d.wall, d.microsecond, fold, none⟩, ?_, ?_, ?_, ?_⟩
    · unfold timestamp
      rw [hnaive, hm]
    · show fromTimeval zone (toTimeval (naiveTimestamp moment d.microsecond)) = _
      rw [hback, fromTimeval_eq_ok]
      exact ⟨d.wall, fold, hshown, by rw [hmicro]⟩
    · rw [hnaive]
    · exact (DateTime.microseconds_naive_iff hnaive rfl).mpr ⟨rfl, rfl⟩
    · intro _ m hm'
      rw [hm] at hm'
      cases hm'
      exact hshown

/-- A value is written, what is written is read, and what is read is equal to it. -/
def ComesBack (zone : LocalZone) (stack : List PyString) (fieldName : PyString) (stack' : List PyString)
    (fieldName' : PyString) (v : PyValue) : Prop :=
  ∃ m, serializeScalarValue zone stack fieldName v = .ok m ∧
    ∃ v', deserializeScalarValue zone stack' fieldName' m = .ok v' ∧ Equal zone v v'

theorem equal_scalar_iff {zone : LocalZone} {s s' : Scalar} :
    Equal zone (.scalar s) (.scalar s') ↔ s.Same zone s' := by
  constructor
  · rintro ⟨h⟩
    exact h
  · exact .scalar

section
variable {zone : LocalZone} {stack stack' : List PyString} {fieldName fieldName' : PyString}

variable {s : Scalar} {m : ScalarValue}

theorem serializeScalarValue_scalar :
    serializeScalarValue zone stack fieldName (.scalar s) = .ok m ↔ serializeScalar zone s = .ok m := by
  rw [serializeScalarValue, handleSerdeError_eq_ok, raising_eq_ok]

theorem leaf_comesBack (hwritten : serializeScalar zone s = .ok m)
    (hread : deserializeScalarValue zone stack' fieldName' m = .ok (.scalar s)) (hsame : s.Same zone s) :
    ComesBack zone stack fieldName stack' fieldName' (.scalar s) :=
  ⟨m, serializeScalarValue_scalar.mpr hwritten, .scalar s, hread, .scalar hsame⟩

theorem leaf_refused {cause : Cause} (h : serializeScalar zone s = .error cause) :
    ¬ ComesBack zone stack fieldName stack' fieldName' (.scalar s) := by
  rintro ⟨m, hm, -⟩
  rw [serializeScalarValue_scalar, h] at hm
  cases hm

theorem deserialize_dateValue (n : Int32Value) :
    deserializeScalarValue zone stack' fieldName' (.dateValue n) =
      handleSerdeError (stack' ++ [fieldName']) (raising ((fromordinal n).map fun d => .scalar (.date d))) :=
  rfl

variable {v : PyValue}

theorem deserialize_timestampValue {x : PyFloat} :
    deserializeScalarValue zone stack' fieldName' (.timestampValue x) = .ok v ↔
      ∃ d, fromtimestamp zone x = .ok d ∧ PyValue.scalar (.datetime d) = v := by
  rw [deserializeScalarValue, handleSerdeError_eq_ok, raising_eq_ok, Except.map_eq_ok]

theorem scalar_comesBack (s : Scalar) :
    ComesBack zone stack fieldName stack' fieldName' (.scalar s) ↔ s.Kept zone := by
  cases s with
  | null | bool _ | float _ | bytes _ => exact iff_of_true (leaf_comesBack rfl rfl rfl) trivial
  | str s =>
    by_cases htext : IsText s
    · have hset : setString s = .ok s := if_pos htext
      apply iff_of_true _ htext
      apply leaf_comesBack (m := .stringValue s)
      · rw [serializeScalar, hset]
        rfl
      · rfl
      · rfl
    · have hset : setString s = .error .surrogates := if_neg htext
      have hraise : serializeScalar zone (.str s) = .error .surrogates := by
        rw [serializeScalar, hset]
        rfl
      exact iff_of_false (leaf_refused hraise) htext
  | int n =>
    by_cases hrange : -2 ^ 31 ≤ n ∧ n < 2 ^ 31
    · have hset : setInt32 n = .ok ⟨n, hrange⟩ := dif_pos hrange
      apply iff_of_true _ hrange
      apply leaf_comesBack (m := .intValue ⟨n, hrange⟩)
      · rw [serializeScalar, hset]
        rfl
      · rfl
      · rfl
    · have hset : setInt32 n = .error (.valueOutOfRange n) := dif_neg hrange
      have hraise : serializeScalar zone (.int n) = .error (.valueOutOfRange n) := by
        rw [serializeScalar, hset]
        rfl
      exact iff_of_false (leaf_refused hraise) hrange
  | date d =>
    -- an ordinal always fits
    have hrange : -2 ^ 31 ≤ d.val ∧ d.val < 2 ^ 31 := by
      omega
    have hset : setInt32 d.val = .ok ⟨d.val, hrange⟩ := dif_pos hrange
    have hread : fromordinal d.val = .ok d := dif_pos d.property
    apply iff_of_true _ trivial
    apply leaf_comesBack (m := .dateValue ⟨d.val, hrange⟩)
    · rw [serializeScalar, hset]
      rfl
    · rw [deserialize_dateValue, hread]
      rfl
    · rfl
  | datetime d =>
    show _ ↔ d.Kept zone
    rw [← datetime_comesBack]
    unfold ComesBack
    simp only [serializeScalarValue_scalar, serializeScalar, Except.map_eq_ok]
    constructor
    · rintro ⟨m, ⟨x, hx, rfl⟩, v', hv', hequal⟩
      obtain ⟨d', hd', rfl⟩ := deserialize_timestampValue.mp hv'
      exact ⟨x, hx, d', hd', equal_scalar_iff.mp hequal⟩
    · rintro ⟨x, hx, d', hd', hsame⟩
      exact ⟨.timestampValue x, ⟨x, hx, rfl⟩, .scalar (.datetime d'), deserialize_timestampValue.mpr ⟨d', hd', rfl⟩,
        .scalar hsame⟩

/-! ## Lists and dicts -/

theorem list_comesBack {items : List PyValue}
    (h : ∀ item ∈ items, ComesBack zone (stack ++ [fieldName]) (pyString "element") (stack' ++ [fieldName'])
      (pyString "element") item ↔ Kept zone item) :
    ComesBack zone stack fieldName stack' fieldName' (.list items) ↔ Kept zone (.list items) := by
  have hitems : ComesBack zone stack fieldName stack' fieldName' (.list items) ↔
      ∀ item ∈ items, ComesBack zone (stack ++ [fieldName]) (pyString "element") (stack' ++ [fieldName'])
        (pyString "element") item := by
    unfold ComesBack
    rw [← Except.mapM_mapM_iff]
    simp only [serializeScalarValue, handleSerdeError_eq_ok, Except.bind_eq_ok, serializeElements_eq]
    constructor
    · rintro ⟨m, ⟨elements, hwritten, hm⟩, v', hv', hequal⟩
      cases hm
      simp only [deserializeScalarValue, handleSerdeError_eq_ok, Except.bind_eq_ok, deserializeElements_eq] at hv'
      obtain ⟨items', hread, hv'⟩ := hv'
      cases hv'
      cases hequal with
      | list hforall => exact ⟨elements, hwritten, items', hread, hforall⟩
    · rintro ⟨elements, hwritten, items', hread, hforall⟩
      refine ⟨.arrayValue elements, ⟨elements, hwritten, rfl⟩, .list items', ?_, .list hforall⟩
      simp only [deserializeScalarValue, handleSerdeError_eq_ok, Except.bind_eq_ok, deserializeElements_eq]
      exact ⟨items', hread, rfl⟩
  rw [hitems]
  constructor
  · intro hback
    exact .list fun item hitem => (h item hitem).mp (hback item hitem)
  · rintro ⟨⟩ item hitem
    rename_i hkept
    exact (h item hitem).mpr (hkept item hitem)

/-- A field of a dict that is written. -/
def serializeField (zone : LocalZone) (stack : List PyString) (field : Scalar × PyValue) :
    Except SerdeError (PyString × ScalarValue) :=
  structField (field.1, serializeScalarValue zone stack (pyString "value") field.2)

theorem serializeField_eq_ok {field : Scalar × PyValue} {written : PyString × ScalarValue} :
    serializeField zone stack field = .ok written ↔
      (field.1 = .str written.1 ∧ IsText written.1) ∧
        serializeScalarValue zone stack (pyString "value") field.2 = .ok written.2 := by
  obtain ⟨key, value⟩ := field
  obtain ⟨name, m⟩ := written
  unfold serializeField structField
  rw [Except.bind_eq_ok]
  constructor
  · rintro ⟨m', hm', h⟩
    cases key with
    | str s =>
      simp only [Except.map_eq_ok, raising_eq_ok] at h
      obtain ⟨s', hs', h⟩ := h
      cases h
      obtain ⟨htext, hs'⟩ := Except.require_eq_ok.mp hs'
      cases hs'
      exact ⟨⟨rfl, htext⟩, hm'⟩
    | _ => cases h
  · rintro ⟨⟨rfl, htext⟩, hm⟩
    have hset : setString name = .ok name := if_pos htext
    refine ⟨m, hm, ?_⟩
    simp only [Except.map_eq_ok, raising_eq_ok]
    exact ⟨name, hset, rfl⟩

theorem deserializeField_eq_ok {written : PyString × ScalarValue} {field : Scalar × PyValue} :
    deserializeField zone stack written = .ok field ↔
      field.1 = .str written.1 ∧ deserializeScalarValue zone stack written.1 written.2 = .ok field.2 := by
  obtain ⟨key, value⟩ := field
  unfold deserializeField
  rw [Except.map_eq_ok]
  constructor
  · rintro ⟨value', hvalue, h⟩
    cases h
    exact ⟨rfl, hvalue⟩
  · rintro ⟨rfl, hvalue⟩
    exact ⟨value, hvalue, rfl⟩

variable {fields : List (Scalar × PyValue)}

/-- A dict is written when its keys can be sorted, field by field in their order. -/
theorem serializeScalarValue_dict :
    serializeScalarValue zone stack fieldName (.dict fields) = .ok m ↔
      (fields.map Prod.fst).Pairwise (fun key key' => (key.lt? key').isSome) ∧
        ∃ written, (fields.mergeSort fun f g => keyLe f.1 g.1).mapM (serializeField zone (stack ++ [fieldName])) = .ok written ∧
          m = .structValue written := by
  have hsorted : ∀ sorted, sortFields (serializeValues zone (stack ++ [fieldName]) fields) = .ok sorted ↔
      (fields.map Prod.fst).Pairwise (fun key key' => (key.lt? key').isSome) ∧
        (fields.mergeSort fun f g => keyLe f.1 g.1).map (fun field =>
          (field.1, serializeScalarValue zone (stack ++ [fieldName]) (pyString "value") field.2)) = sorted := by
    intro sorted
    have hmap := List.map_mergeSort (r := fun f g : Scalar × PyValue => keyLe f.1 g.1)
      (s := fun f g : Scalar × Except SerdeError ScalarValue => keyLe f.1 g.1) (l := fields)
      (f := fun field => (field.1, serializeScalarValue zone (stack ++ [fieldName]) (pyString "value") field.2))
      fun _ _ _ _ => rfl
    unfold sortFields
    rw [Except.require_eq_ok, serializeValues_eq, List.map_map, hmap, Except.ok.injEq]
    rfl
  simp only [serializeScalarValue, handleSerdeError_eq_ok, Except.bind_eq_ok, raising_eq_ok, hsorted]
  constructor
  · rintro ⟨_, ⟨hcomparable, rfl⟩, written, hwritten, hm⟩
    cases hm
    rw [List.mapM_map] at hwritten
    exact ⟨hcomparable, written, hwritten, rfl⟩
  · rintro ⟨hcomparable, written, hwritten, rfl⟩
    refine ⟨_, ⟨hcomparable, rfl⟩, written, ?_, rfl⟩
    rw [List.mapM_map]
    exact hwritten

/-- The names are the keys in their order. -/
theorem names_of_written {written : List (PyString × ScalarValue)}
    (h : fields.mapM (serializeField zone stack) = .ok written) :
    (written.map fun field => Scalar.str field.1) = fields.map Prod.fst := by
  have hpairs := Except.mapM_eq_ok.mp h
  clear h
  induction hpairs with
  | nil => rfl
  | cons hfield _ ih => rw [List.map_cons, List.map_cons, ih, (serializeField_eq_ok.mp hfield).1.1]

/-- The dict that is read has the fields in the order of the message. -/
theorem deserializeScalarValue_struct {written : List (PyString × ScalarValue)}
    (h : (written.map fun field => Scalar.str field.1).Nodup) :
    deserializeScalarValue zone stack fieldName (.structValue written) = .ok v ↔
      ∃ fields, written.mapM (deserializeField zone (stack ++ [fieldName])) = .ok fields ∧ v = .dict fields := by
  simp only [deserializeScalarValue, handleSerdeError_eq_ok, Except.bind_eq_ok]
  rw [deserializeFields_eq _ _ _ _ (by simpa using h)]
  simp only [Except.map_eq_ok, List.nil_append, exists_eq_right]
  constructor
  · rintro ⟨fields, hfields, hv⟩
    cases hv
    exact ⟨fields, hfields, rfl⟩
  · rintro ⟨fields, hfields, rfl⟩
    exact ⟨fields, hfields, rfl⟩

/-- Dicts whose fields are listed in the same order are equal exactly when their fields are. -/
theorem equal_dict_iff {sorted fields' : List (Scalar × PyValue)} (hnodup : (fields.map Prod.fst).Nodup)
    (hperm : sorted.Perm fields) (hkeys : sorted.map Prod.fst = fields'.map Prod.fst) :
    Equal zone (.dict fields) (.dict fields') ↔
      List.Forall₂ (fun field field' => field.1 = field'.1 ∧ Equal zone field.2 field'.2) sorted fields' := by
  constructor
  · rintro ⟨⟩
    rename_i hvalues
    rw [List.forall₂_iff_zip]
    refine ⟨by simpa using congrArg List.length hkeys, fun {field field'} hmem => ?_⟩
    have hkey : field.1 = field'.1 := by
      have hpairs : List.Forall₂ (fun field field' : Scalar × PyValue => field.1 = field'.1) sorted fields' := by
        rw [← List.forall₂_map_right_iff (f := Prod.fst), ← List.forall₂_map_left_iff (f := Prod.fst), List.forall₂_eq_eq_eq]
        exact hkeys
      exact (List.forall₂_iff_zip.mp hpairs).2 hmem
    obtain ⟨hfield, hfield'⟩ := List.of_mem_zip hmem
    exact ⟨hkey, hvalues field (hperm.mem_iff.mp hfield) field' hfield' hkey⟩
  · intro hpairs
    refine .dict (hkeys ▸ hperm.symm.map Prod.fst) fun field hfield field' hfield' hkey => ?_
    obtain ⟨partner, hpartner, hkey', hequal⟩ := Rows.exists_left_of_forall₂ hpairs hfield'
    -- the key of the field that was read belongs to one field only
    have hsame : partner = field :=
      List.inj_on_of_nodup_map hnodup (hperm.mem_iff.mp hpartner) hfield (hkey'.trans hkey.symm)
    exact hsame ▸ hequal

theorem comparable_of_text
    (h : ∀ field ∈ fields, ∃ name, field.1 = .str name ∧ IsText name) :
    (fields.map Prod.fst).Pairwise fun key key' => (key.lt? key').isSome := by
  rw [List.pairwise_map]
  apply List.pairwise_of_forall_mem_list
  intro field hfield field' hfield'
  obtain ⟨name, hname, -⟩ := h field hfield
  obtain ⟨name', hname', -⟩ := h field' hfield'
  rw [hname, hname']
  rfl

theorem dict_comesBack (hnodup : (fields.map Prod.fst).Nodup)
    (h : ∀ field ∈ fields, ∀ name, ComesBack zone (stack ++ [fieldName]) (pyString "value") (stack' ++ [fieldName']) name
      field.2 ↔ Kept zone field.2) :
    ComesBack zone stack fieldName stack' fieldName' (.dict fields) ↔ Kept zone (.dict fields) := by
  have hperm := List.mergeSort_perm fields fun f g => keyLe f.1 g.1
  have hfields : (∃ written, (fields.mergeSort fun f g => keyLe f.1 g.1).mapM (serializeField zone (stack ++ [fieldName])) =
        .ok written ∧ ∃ fields', written.mapM (deserializeField zone (stack' ++ [fieldName'])) = .ok fields' ∧
          List.Forall₂ (fun field field' => field.1 = field'.1 ∧ Equal zone field.2 field'.2)
            (fields.mergeSort fun f g => keyLe f.1 g.1) fields') ↔
      ∀ field ∈ fields, (∃ name, field.1 = .str name ∧ IsText name) ∧ Kept zone field.2 := by
    rw [Except.mapM_mapM_iff]
    simp only [hperm.mem_iff]
    apply forall₂_congr
    intro field hfield
    constructor
    · rintro ⟨written, hwritten, field', hread, hkey, hequal⟩
      obtain ⟨⟨hname, htext⟩, hm⟩ := serializeField_eq_ok.mp hwritten
      obtain ⟨-, hv⟩ := deserializeField_eq_ok.mp hread
      exact ⟨⟨_, hname, htext⟩, (h field hfield _).mp ⟨_, hm, _, hv, hequal⟩⟩
    · rintro ⟨⟨name, hname, htext⟩, hkept⟩
      obtain ⟨m, hm, v, hv, hequal⟩ := (h field hfield name).mpr hkept
      exact ⟨(name, m), serializeField_eq_ok.mpr ⟨⟨hname, htext⟩, hm⟩, (.str name, v),
        deserializeField_eq_ok.mpr ⟨rfl, hv⟩, hname, hequal⟩
  have hkept : Kept zone (.dict fields) ↔
      ∀ field ∈ fields, (∃ name, field.1 = .str name ∧ IsText name) ∧ Kept zone field.2 := by
    constructor
    · rintro ⟨⟩ field hfield
      rename_i hnames hvalues
      exact ⟨hnames field hfield, hvalues field hfield⟩
    · intro hall
      exact .dict (fun field hfield => (hall field hfield).1) fun field hfield => (hall field hfield).2
  rw [hkept, ← hfields]
  unfold ComesBack
  simp only [serializeScalarValue_dict]
  -- the names of what was written are the keys, and no two of them are the same
  have hnames : ∀ written, (fields.mergeSort fun f g => keyLe f.1 g.1).mapM (serializeField zone (stack ++ [fieldName])) =
      .ok written → (written.map fun field => Scalar.str field.1).Nodup := by
    intro written hwritten
    rw [names_of_written hwritten]
    exact ((hperm.map Prod.fst).nodup_iff).mpr hnodup
  have hkeys : ∀ {written fields'}, (fields.mergeSort fun f g => keyLe f.1 g.1).mapM
      (serializeField zone (stack ++ [fieldName])) = .ok written →
      written.mapM (deserializeField zone (stack' ++ [fieldName'])) = .ok fields' →
      (fields.mergeSort fun f g => keyLe f.1 g.1).map Prod.fst = fields'.map Prod.fst := by
    intro written fields' hwritten hread
    rw [← names_of_written hwritten]
    have hpairs := Except.mapM_eq_ok.mp hread
    symm
    apply Rows.map_eq_of_forall₂ _ hpairs
    intro _ _ hfield
    exact (deserializeField_eq_ok.mp hfield).1
  constructor
  · rintro ⟨m, ⟨-, written, hwritten, rfl⟩, v', hv', hequal⟩
    obtain ⟨fields', hread, rfl⟩ := (deserializeScalarValue_struct (hnames written hwritten)).mp hv'
    exact ⟨written, hwritten, fields', hread, (equal_dict_iff hnodup hperm (hkeys hwritten hread)).mp hequal⟩
  · intro hall
    have htexts := fun field hfield => (hfields.mp hall field hfield).1
    obtain ⟨written, hwritten, fields', hread, hpairs⟩ := hall
    exact ⟨_, ⟨comparable_of_text htexts, written, hwritten, rfl⟩, .dict fields',
      (deserializeScalarValue_struct (hnames written hwritten)).mpr ⟨fields', hread, rfl⟩,
      (equal_dict_iff hnodup hperm (hkeys hwritten hread)).mpr hpairs⟩

/-! ## All values -/

theorem comesBack_iff (h : Supported v) :
    ComesBack zone stack fieldName stack' fieldName' v ↔ Kept zone v := by
  induction h generalizing stack stack' fieldName fieldName' with
  | scalar s =>
    rw [scalar_comesBack]
    constructor
    · exact .scalar
    · rintro ⟨hkept⟩
      exact hkept
  | list _ ih => exact list_comesBack fun item hitem => ih item hitem
  | dict hnodup _ ih => exact dict_comesBack hnodup fun field hfield _ => ih field hfield

/-- A field raises what its value does, or a complaint about its name. -/
theorem structField_unsupported {key : Scalar} {value : Except SerdeError ScalarValue} {typeName path : PyString}
    (h : structField (key, value) = .error (.unsupportedType typeName path)) :
    value = .error (.unsupportedType typeName path) := by
  rcases Except.bind_eq_error.mp h with h | ⟨m, -, h⟩
  · exact h
  · cases key with
    | str name =>
      dsimp only at h
      cases hset : setString name with
      | ok _ | error _ =>
        rw [hset] at h
        cases h
    | _ => cases h

/-- The error for an unsupported type is raised for no value of the supported ones. -/
theorem not_unsupported (h : Supported v) (typeName path : PyString) :
    serializeScalarValue zone stack fieldName v ≠ .error (.unsupportedType typeName path) := by
  induction h generalizing stack fieldName path with
  | scalar s =>
    intro hraise
    obtain ⟨_, hraise⟩ := of_handle_unsupported hraise
    exact raising_ne_unsupported _ _ _ hraise
  | list _ ih =>
    intro hraise
    rw [serializeScalarValue, serializeElements_eq] at hraise
    obtain ⟨_, hraise⟩ := of_handle_unsupported hraise
    rcases Except.bind_eq_error.mp hraise with hraise | ⟨_, -, hraise⟩
    · obtain ⟨item, hitem, hraise⟩ := Except.exists_of_mapM_eq_error hraise
      exact ih item hitem _ hraise
    · cases hraise
  | @dict fields _ _ ih =>
    intro hraise
    rw [serializeScalarValue, serializeValues_eq] at hraise
    obtain ⟨_, hraise⟩ := of_handle_unsupported hraise
    rcases Except.bind_eq_error.mp hraise with hraise | ⟨sorted, hsorted, hraise⟩
    · exact raising_ne_unsupported _ _ _ hraise
    rcases Except.bind_eq_error.mp hraise with hraise | ⟨_, -, hraise⟩
    · obtain ⟨field, hfield, hraise⟩ := Except.exists_of_mapM_eq_error hraise
      obtain ⟨-, hsorted⟩ := Except.require_eq_ok.mp (raising_eq_ok.mp hsorted)
      cases hsorted
      obtain ⟨source, hsource, rfl⟩ := List.mem_map.mp (List.mem_mergeSort.mp hfield)
      exact ih source hsource _ (structField_unsupported hraise)
    · cases hraise

end

theorem kept_of_roundTrips {zone : LocalZone} {v : PyValue} (h : Supported v) (hround : RoundTrips zone v) : Kept zone v := by
  rcases hround [] [] with ⟨typeName, path, hraise⟩ | ⟨m, hm, hread⟩
  · exact absurd hraise (not_unsupported h typeName path)
  · obtain ⟨v', hv', hequal⟩ := hread [] []
    exact (comesBack_iff h).mp ⟨m, hm, v', hv', hequal⟩

/-- A value of the supported types round trips exactly when its leaves do: integers of 32 bits, texts without surrogates,
    datetimes without a time zone that the wall clock shows and some double is near, and dicts with such texts as keys. -/
theorem roundTrips_iff (zone : LocalZone) {v : PyValue} (h : Supported v) : RoundTrips zone v ↔ Kept zone v := by
  constructor
  · exact kept_of_roundTrips h
  · intro hkept stack fieldName
    have hback : ∀ stack' fieldName', ComesBack zone stack fieldName stack' fieldName' v :=
      fun _ _ => (comesBack_iff h).mpr hkept
    obtain ⟨m, hm, -⟩ := hback [] []
    right
    refine ⟨m, hm, fun stack' fieldName' => ?_⟩
    obtain ⟨m', hm', v', hv', hequal⟩ := hback stack' fieldName'
    rw [hm] at hm'
    cases hm'
    exact ⟨v', hv', hequal⟩

/-- The zone without an offset. -/
def utc : LocalZone where
  localtime moment := some (moment, false)
  mktime wall _ := some wall
  localtime_injective h h' := by
    cases h
    cases h'
    rfl
  localtime_mktime h _ := by
    cases h
    exact ⟨false, rfl⟩

/-- Half a second after the epoch, in a struct next to a number. -/
theorem event_roundTrips : RoundTrips utc (.dict [(.str (pyString "at"), .scalar (.datetime ⟨0, 500000, false, none⟩)),
    (.str (pyString "n"), .list [.scalar (.int 7), .scalar .null])]) := by
  have hnear : NearDouble (0 * 10 ^ 6 + 500000) := nearDouble_of_near (by decide)
  have hitems : ∀ item ∈ [PyValue.scalar (.int 7), .scalar .null], Supported item ∧ Kept utc item :=
    List.forall_mem_cons.mpr ⟨⟨.scalar _, .scalar (by constructor <;> decide)⟩,
      List.forall_mem_singleton.mpr ⟨.scalar _, .scalar trivial⟩⟩
  apply (roundTrips_iff utc _).mpr
  · apply Kept.dict
    · exact List.forall_mem_cons.mpr ⟨⟨_, rfl, by decide⟩, List.forall_mem_singleton.mpr ⟨_, rfl, by decide⟩⟩
    · rw [List.forall_mem_cons]
      refine ⟨.scalar ⟨rfl, ⟨0, false, rfl⟩, 0, rfl, hnear⟩, ?_⟩
      exact List.forall_mem_singleton.mpr (.list fun item hitem => (hitems item hitem).2)
  · apply Supported.dict
    · decide
    · rw [List.forall_mem_cons]
      refine ⟨.scalar _, ?_⟩
      exact List.forall_mem_singleton.mpr (.list fun item hitem => (hitems item hitem).1)

/-- A moment with a time zone comes back without it. -/
theorem aware_datetime_lost : ¬ ∀ (zone : LocalZone) (v : PyValue), Supported v → RoundTrips zone v := by
  intro hall
  have hkept := kept_of_roundTrips (.scalar _) (hall utc (.scalar (.datetime ⟨0, 0, false, some 0⟩)) (.scalar _))
  cases hkept with
  | scalar h => exact absurd h.1 (by decide)

end Serde

end Fenic
