import Fenic.Dtypes.Agreement

/-!
# `Dtypes.JsonRoundTrip` — columns to JSON and back

`toJson` and `castJsonHelper` recurse over the type on their own. For the types that have a JSON form without loss, the
second undoes the first but for one thing: a null struct is a JSON null, and comes back as a struct of nulls. `fill` is
this change, and `castJsonHelper_fill` says that there is no other.

A text is the exception at the top: the cast of a text column to JSON reads the texts as documents.
-/

namespace Fenic

namespace Dtypes

section

variable [Engine]

/-- The cast to JSON, and the cast of the result back. -/
def castThroughJson (t : DataType) (s : Series) : Except CastError Series := do
  let json ← castSeries t .jsonType s
  castSeries .jsonType t json

section

omit [Engine]

mutual

/-- The types built from strings, integers, booleans, arrays and structs. -/
def isPlain : DataType → Bool
  | .stringType => true
  | .integerType => true
  | .booleanType => true
  | .arrayType t => isPlain t
  | .structType fs => isPlainFields fs
  | _ => false

def isPlainFields : List (String × DataType) → Bool
  | [] => true
  | (_, t) :: fs => isPlain t && isPlainFields fs

end

/-! ## Null structs -/

/-- The fields of a struct; a null struct has none. -/
def Value.fields : Value → List Value
  | .struct values => values
  | _ => []

mutual

/-- The value with null structs, at any level, replaced by structs of nulls. -/
def fill : DataType → Value → Value
  | .arrayType t, .list items => .list (items.map (fill t))
  | .structType fs, v => .struct (fillFields fs v.fields)
  | _, v => v

def fillFields : List (String × DataType) → List Value → List Value
  | [], _ => []
  | (_, t) :: fs, values => fill t (values.headD .null) :: fillFields fs values.tail

end

mutual

/-- No struct of the value, at any level, is null. -/
def NoNullStruct : DataType → Value → Prop
  | .arrayType t, .list items => ∀ item ∈ items, NoNullStruct t item
  | .structType fs, .struct values => NoNullStructFields fs values
  | .structType _, _ => False
  | _, _ => True

def NoNullStructFields : List (String × DataType) → List Value → Prop
  | (_, t) :: fs, v :: values => NoNullStruct t v ∧ NoNullStructFields fs values
  | _, _ => True

end

theorem fill_list (t : DataType) (items : List Value) :
    fill (.arrayType t) (.list items) = .list (items.map (fill t)) := rfl

end

mutual

/-- A value without null structs stays as it is. -/
theorem fill_eq_self : ∀ (t : DataType) (v : Value), Fits t v → NoNullStruct t v → fill t v = v
  | .arrayType t, v, hfits, hnone => by
    rcases fits_array hfits with rfl | ⟨items, rfl, hitems⟩
    · rfl
    · rw [fill_list]
      have hmap : items.map (fill t) = items.map id := by
        apply List.map_congr_left
        intro item hitem
        exact fill_eq_self t item (hitems item hitem) (hnone item hitem)
      rw [hmap, List.map_id]
  | .structType fs, v, hfits, hnone => by
    rcases fits_struct hfits with rfl | ⟨values, rfl, hvalues⟩
    · rw [NoNullStruct] at hnone
      · exact hnone.elim
      · nofun
    · rw [NoNullStruct] at hnone
      show Value.struct (fillFields fs values) = .struct values
      rw [fillFields_eq_self fs values hvalues hnone]
  | .stringType, _, _, _ => rfl
  | .integerType, _, _, _ => rfl
  | .floatType, _, _, _ => rfl
  | .doubleType, _, _, _ => rfl
  | .booleanType, _, _, _ => rfl
  | .dateType, _, _, _ => rfl
  | .timestampType, _, _, _ => rfl
  | .embeddingType _ _, _, _, _ => rfl
  | .markdownType, _, _, _ => rfl
  | .htmlType, _, _, _ => rfl
  | .jsonType, _, _, _ => rfl
  | .transcriptType _, _, _, _ => rfl
  | .documentPathType _, _, _, _ => rfl

theorem fillFields_eq_self : ∀ (fs : List (String × DataType)) (values : List Value),
    List.Forall₂ (fun field v => Fits field.2 v) fs values → NoNullStructFields fs values → fillFields fs values = values
  | [], _, .nil, _ => rfl
  | (_, t) :: fs, v :: values, .cons hv hvalues, hnone => by
    show fill t v :: fillFields fs values = v :: values
    rw [fill_eq_self t v hv hnone.1, fillFields_eq_self fs values hvalues hnone.2]

end

/-! ## What a document says about the fields -/

/-- A value and the document it is converted to. -/
def Encodes (t : DataType) (v : Value) (json : Json) : Prop :=
  Fits t v ∧ toJson (canonicalPolarsType t) v = .ok json

theorem encodes_null (t : DataType) : Encodes t .null .null :=
  ⟨.null t, toJson_null _⟩

/-- The members of a document encode the values of the fields; values that are missing are null. -/
def EncodesFields : List (String × DataType) → List Value → Json → Prop
  | [], _, _ => True
  | (name, t) :: fs, values, json => Encodes t (values.headD .null) (member name json) ∧ EncodesFields fs values.tail json

theorem encodesFields_null (fs : List (String × DataType)) : EncodesFields fs [] .null := by
  induction fs with
  | nil => trivial
  | cons f fs ih => exact ⟨encodes_null _, ih⟩

omit [Engine] in
theorem member_cons_self (name : String) (json : Json) (members : List (String × Json)) :
    member name (.object ((name, json) :: members)) = json := by
  simp [member]

omit [Engine] in
theorem member_cons_of_ne {name other : String} (h : name ≠ other) (json : Json) (members : List (String × Json)) :
    member name (.object ((other, json) :: members)) = member name (.object members) := by
  have hbeq : (name == other) = false := by simpa using h
  simp [member, List.lookup, hbeq]

/-- The induction is on the fields that are left: the members of the others are in front of theirs. -/
theorem encodesFields_of_toJsonFields (fs : List (String × DataType)) (values : List Value) (members : List (String × Json))
    (json : Json) (hfits : List.Forall₂ (fun field v => Fits field.2 v) fs values)
    (hmembers : toJsonFields (canonicalFields fs) values = .ok members) (hnodup : (fs.map Prod.fst).Nodup)
    (hsame : ∀ name ∈ fs.map Prod.fst, member name json = member name (.object members)) :
    EncodesFields fs values json := by
  induction hfits generalizing members with
  | nil => trivial
  | @cons f v fs values hv _ ih =>
    obtain ⟨name, t⟩ := f
    obtain ⟨first, hfirst, hmembers⟩ := Except.bind_eq_ok.mp hmembers
    obtain ⟨rest, hrest, hmembers⟩ := Except.bind_eq_ok.mp hmembers
    cases hmembers
    rw [List.map_cons, List.nodup_cons] at hnodup
    have hfirstMember : member name json = first := by
      rw [hsame name List.mem_cons_self, member_cons_self]
    refine ⟨⟨hv, ?_⟩, ih rest hrest hnodup.2 ?_⟩
    · show toJson (canonicalPolarsType t) v = .ok (member name json)
      rw [hfirst, hfirstMember]
    · intro other hother
      have hne : other ≠ name := by
        rintro rfl
        exact hnodup.1 hother
      rw [hsame other (List.mem_cons_of_mem _ hother), member_cons_of_ne hne]

variable {fs : List (String × DataType)} {v : Value} {json : Json}

theorem Encodes.fields (h : Encodes (.structType fs) v json)
    (hnodup : (fs.map Prod.fst).Nodup) : EncodesFields fs v.fields json := by
  obtain ⟨hfits, hjson⟩ := h
  rcases fits_struct hfits with rfl | ⟨values, rfl, hvalues⟩
  · rw [toJson_null] at hjson
    cases hjson
    exact encodesFields_null fs
  · rw [canonicalPolarsType, toJson] at hjson
    obtain ⟨members, hmembers, rfl⟩ := Except.map_eq_ok.mp hjson
    exact encodesFields_of_toJsonFields fs values members _ hvalues hmembers hnodup fun name _ => rfl

variable {t : DataType}

theorem Encodes.list {items : List Value} (h : Encodes (.arrayType t) (.list items) json) :
    ∃ jsons, json = .array jsons ∧ List.Forall₂ (Encodes t) items jsons := by
  obtain ⟨hfits, hjson⟩ := h
  have hitems : ∀ item ∈ items, Fits t item := by
    rcases fits_array hfits with h | ⟨items', h, hitems⟩
    · cases h
    · cases h
      exact hitems
  rw [canonicalPolarsType, toJson] at hjson
  obtain ⟨jsons, hjsons, rfl⟩ := Except.map_eq_ok.mp hjson
  exact ⟨jsons, rfl, (List.forall₂_and_left _ _).mpr ⟨hitems, Except.mapM_eq_ok.mp hjsons⟩⟩

/-! ## Back -/

omit [Engine] in
theorem map_eq_of_forall₂ {α β γ : Type} {R : α → β → Prop} {f : β → γ} {g : α → γ} {as : List α} {bs : List β}
    (h : List.Forall₂ R as bs) (hfg : ∀ a b, R a b → f b = g a) : bs.map f = as.map g := by
  induction h with
  | nil => rfl
  | cons hab _ ih => rw [List.map_cons, List.map_cons, hfg _ _ hab, ih]

omit [Engine] in
/-- Integers of 64 bits are read back. -/
theorem intValue_jsonOfInt (i : Int64) : intValue (jsonOfInt i) = .int i := by
  unfold jsonOfInt
  by_cases hneg : i.toInt < 0
  · rw [if_pos hneg]
    rfl
  · rw [if_neg hneg]
    have hlt : i.toInt < 2 ^ 63 := Int64.toInt_lt i
    have hnat : (UInt64.ofNat i.toInt.toNat).toNat = i.toInt.toNat := by
      apply UInt64.toNat_ofNat_of_lt
      show i.toInt.toNat < 2 ^ 64
      omega
    have hsmall : i.toInt.toNat < 2 ^ 63 := by omega
    have hback : Int64.ofNat i.toInt.toNat = i := by
      rw [← Int64.ofInt_eq_ofNat, Int.toNat_of_nonneg (by omega), Int64.ofInt_toInt]
    show ((if (UInt64.ofNat i.toInt.toNat).toNat < 2 ^ 63
      then some (Int64.ofNat (UInt64.ofNat i.toInt.toNat).toNat) else none).elim .null Value.int) = .int i
    rw [hnat, if_pos hsmall, hback]
    rfl

/-- The columns of the fields, of rows that hold the values of the fields. -/
def fillColumns : List (String × DataType) → List (List Value) → List (String × Series)
  | [], _ => []
  | (name, t) :: fs, rows =>
    (name, ⟨canonicalPolarsType t, rows.map (fun values => fill t (values.headD .null))⟩) ::
      fillColumns fs (rows.map List.tail)

omit [Engine] in
theorem fillColumns_returned (fs : List (String × DataType)) (rows : List (List Value)) :
    FieldsReturned fs rows.length (fillColumns fs rows) := by
  induction fs generalizing rows with
  | nil => exact .nil
  | cons f fs ih =>
    have hrest := ih (rows.map List.tail)
    rw [List.length_map] at hrest
    exact .cons ⟨rfl, rfl, List.length_map _⟩ hrest

omit [Engine] in
/-- One row of the struct made of the columns. -/
theorem fillColumns_row (fs : List (String × DataType)) (rows : List (List Value)) {i : Nat} (hi : i < rows.length) :
    (fillColumns fs rows).map (fun field => field.2.values.getD (if field.2.len = 1 then 0 else i) .null) =
      fillFields fs rows[i] := by
  induction fs generalizing rows with
  | nil => rfl
  | cons f fs ih =>
    obtain ⟨name, t⟩ := f
    have hindex : (if (rows.map (fun values => fill t (values.headD .null))).length = 1 then 0 else i) = i := by
      rw [List.length_map]
      split
      · omega
      · rfl
    have hrest := ih (rows.map List.tail) (by rwa [List.length_map])
    rw [List.getElem_map] at hrest
    rw [fillColumns, List.map_cons, hrest]
    show (rows.map (fun values => fill t (values.headD .null))).getD
        (if (rows.map (fun values => fill t (values.headD .null))).length = 1 then 0 else i) .null :: _ = _
    rw [hindex, List.getD_eq_getElem?_getD, List.getElem?_map, List.getElem?_eq_getElem hi]
    rfl

omit [Engine] in
theorem fromSeries_fillColumns (hnodup : (fs.map Prod.fst).Nodup) (rows : List (List Value)) :
    Series.fromSeries rows.length (fillColumns fs rows) =
      .ok ⟨canonicalPolarsType (.structType fs), rows.map (fun values => .struct (fillFields fs values))⟩ := by
  obtain ⟨s, hs, hdtype, -⟩ := fromSeries_ok (fillColumns_returned fs rows) hnodup
  rw [hs]
  rw [Series.fromSeries, Except.require_eq_ok, Except.require_eq_ok] at hs
  obtain ⟨-, -, hs⟩ := hs
  have hvalues : s.values = rows.map (fun values => .struct (fillFields fs values)) := by
    injection hs with hs
    rw [← hs]
    apply List.ext_getElem
    · rw [List.length_map, List.length_map, List.length_range]
    · intro i hi hi'
      rw [List.length_map] at hi'
      rw [List.getElem_map, List.getElem_map, List.getElem_range, fillColumns_row fs rows hi']
  cases s
  rw [← hdtype, ← hvalues]

/-- The row of an array, as a list builder takes it. -/
def itemRow (t : DataType) : Value → Option Series
  | .list items => some ⟨canonicalPolarsType t, items.map (fill t)⟩
  | _ => none

omit [Engine] in
theorem itemRow_dtype {s : Series} (h : itemRow t v = some s) : s.dtype = canonicalPolarsType t := by
  cases v with
  | list items =>
    cases h
    rfl
  | _ => cases h

/-- `append_array_value` gives back the items. -/
theorem castJsonItem_fill (h : Encodes (.arrayType t) v json)
    (hitems : ∀ items jsons, List.Forall₂ (Encodes t) items jsons →
      castJsonHelper t jsons = .ok ⟨canonicalPolarsType t, items.map (fill t)⟩) :
    castJsonItem (castJsonHelper t) json = .ok (itemRow t v) := by
  rcases fits_array h.1 with rfl | ⟨items, rfl, -⟩
  · have hjson := h.2
    cases hjson
    rfl
  · obtain ⟨jsons, rfl, hencodes⟩ := h.list
    rw [castJsonItem, hitems items jsons hencodes]
    rfl

omit [Engine] in
theorem isPlainFields_cons {name : String}
    (h : isPlainFields ((name, t) :: fs) = true) : isPlain t = true ∧ isPlainFields fs = true := by
  simpa only [isPlainFields, Bool.and_eq_true] using h

mutual

/-- **What a column of documents is cast to**: the values they encode, with null structs filled. -/
theorem castJsonHelper_fill : ∀ (t : DataType), isPlain t = true → jsonBuildable t = true →
    ∀ (values : List Value) (jsons : List Json), List.Forall₂ (Encodes t) values jsons →
      castJsonHelper t jsons = .ok ⟨canonicalPolarsType t, values.map (fill t)⟩
  | .stringType, _, _, values, jsons, h => by
    have hmap : jsons.map stringValue = values.map (fill .stringType) := by
      apply map_eq_of_forall₂ h
      rintro v json ⟨hfits, hjson⟩
      cases hfits <;> cases hjson <;> rfl
    show Except.ok (Series.mk .string (jsons.map stringValue)) = _
    rw [hmap]
    rfl
  | .integerType, _, _, values, jsons, h => by
    have hmap : jsons.map intValue = values.map (fill .integerType) := by
      apply map_eq_of_forall₂ h
      rintro v json ⟨hfits, hjson⟩
      cases hfits with
      | null =>
        cases hjson
        rfl
      | text htext => cases htext
      | int i =>
        cases hjson
        exact intValue_jsonOfInt i
    show Except.ok (Series.mk .int64 (jsons.map intValue)) = _
    rw [hmap]
    rfl
  | .booleanType, _, _, values, jsons, h => by
    have hmap : jsons.map boolValue = values.map (fill .booleanType) := by
      apply map_eq_of_forall₂ h
      rintro v json ⟨hfits, hjson⟩
      cases hfits with
      | null =>
        cases hjson
        rfl
      | text htext => cases htext
      | boolean b =>
        cases hjson
        rfl
    show Except.ok (Series.mk .boolean (jsons.map boolValue)) = _
    rw [hmap]
    rfl
  | .arrayType t, hplain, hbuildable, values, jsons, h => by
    have hitems := castJsonHelper_fill t hplain hbuildable
    have hrows : jsons.mapM (castJsonItem (castJsonHelper t)) = .ok (values.map (itemRow t)) := by
      rw [Except.mapM_eq_ok, List.forall₂_map_right_iff]
      apply List.Forall₂.flip
      exact h.imp fun v json hencodes => castJsonItem_fill hencodes hitems
    have hdtypes : ∀ row ∈ values.map (itemRow t), ∀ s ∈ row, s.dtype = canonicalPolarsType t := by
      intro row hrow s hs
      obtain ⟨v, -, rfl⟩ := List.mem_map.mp hrow
      exact itemRow_dtype hs
    rw [castJsonHelper, hrows, Except.ok_bind, Series.buildList, if_pos hdtypes, List.map_map]
    have hvalues : ∀ v ∈ values, Fits (.arrayType t) v := ((List.forall₂_and_left _ _).mp h).1
    congr 2
    apply List.map_congr_left
    intro v hv
    rcases fits_array (hvalues v hv) with rfl | ⟨items, rfl, -⟩
    · rfl
    · rfl
  | .structType fs, hplain, hbuildable, values, jsons, h => by
    have hparts : (fs.map Prod.fst).Nodup ∧ jsonBuildableFields fs = true := by
      simpa only [jsonBuildable, Bool.and_eq_true, decide_eq_true_eq] using hbuildable
    have hrows : List.Forall₂ (EncodesFields fs) (values.map Value.fields) jsons := by
      rw [List.forall₂_map_left_iff]
      exact h.imp fun v json hencodes => hencodes.fields hparts.1
    have hlength : jsons.length = (values.map Value.fields).length := hrows.length_eq.symm
    rw [castJsonHelper, castJsonFields_fill fs hplain hparts.2 _ _ hrows, Except.ok_bind, hlength,
      fromSeries_fillColumns hparts.1, List.map_map]
    rfl

theorem castJsonFields_fill : ∀ (fs : List (String × DataType)), isPlainFields fs = true → jsonBuildableFields fs = true →
    ∀ (rows : List (List Value)) (jsons : List Json), List.Forall₂ (EncodesFields fs) rows jsons →
      castJsonFields fs jsons = .ok (fillColumns fs rows)
  | [], _, _, _, _, _ => rfl
  | (name, t) :: fs, hplain, hbuildable, rows, jsons, h => by
    have hplains := isPlainFields_cons hplain
    have hparts : jsonBuildable t = true ∧ jsonBuildableFields fs = true := by
      simpa only [jsonBuildableFields, Bool.and_eq_true] using hbuildable
    have hfirst : List.Forall₂ (Encodes t) (rows.map fun values => values.headD .null) (jsons.map (member name)) := by
      rw [List.forall₂_map_left_iff, List.forall₂_map_right_iff]
      exact h.imp fun values json hencodes => hencodes.1
    have hrest : List.Forall₂ (EncodesFields fs) (rows.map List.tail) jsons := by
      rw [List.forall₂_map_left_iff]
      exact h.imp fun values json hencodes => hencodes.2
    rw [castJsonFields, castJsonHelper_fill t hplains.1 hparts.1 _ _ hfirst, Except.ok_bind,
      castJsonFields_fill fs hplains.2 hparts.2 _ _ hrest, Except.ok_bind, List.map_map]
    rfl

end

/-! ## The round trip -/

theorem castFenicDtypeToJson_encodes {s : Series} (hcolumn : IsColumn t s) (hjsonable : jsonable t = true) :
    ∃ jsons, castFenicDtypeToJson s = .ok ⟨.string, jsons.map jsonValue⟩ ∧ List.Forall₂ (Encodes t) s.values jsons := by
  have hrow : ∀ v ∈ s.values, ∃ json, toJson s.dtype v = .ok json ∧ Encodes t v json := by
    intro v hv
    rw [hcolumn.1]
    obtain ⟨json, hjson⟩ := toJson_ok t v (hcolumn.2 v hv) hjsonable
    exact ⟨json, hjson, hcolumn.2 v hv, hjson⟩
  obtain ⟨jsons, hjsons, hencodes⟩ := Except.mapM_ok hrow
  refine ⟨jsons, ?_, hencodes⟩
  rw [castFenicDtypeToJson, hjsons, Except.ok_bind]
  rfl

/-- A printed document is parsed again. -/
theorem parseJson_jsonValue (json : Json) : parseJson (jsonValue json) = .ok json := by
  cases json <;> rfl

theorem castJsonToFenicDtype_printed (t : DataType) (jsons : List Json) :
    castJsonToFenicDtype ⟨.string, jsons.map jsonValue⟩ t = castJsonHelper t jsons := by
  have hparse : (jsons.map jsonValue).mapM parseJson = .ok jsons := by
    rw [Except.mapM_eq_ok, List.forall₂_map_left_iff]
    exact List.forall₂_same.mpr fun json _ => parseJson_jsonValue json
  rw [castJsonToFenicDtype]
  simp only [hparse, Except.ok_bind]

mutual

theorem jsonable_of_isPlain : ∀ t : DataType, isPlain t = true → jsonable t = true
  | .arrayType t, h => jsonable_of_isPlain t h
  | .structType fs, h => jsonableFields_of_isPlain fs h
  | .stringType, _ => rfl
  | .integerType, _ => rfl
  | .booleanType, _ => rfl

theorem jsonableFields_of_isPlain : ∀ fs : List (String × DataType), isPlainFields fs = true → jsonableFields fs = true
  | [], _ => rfl
  | (_, t) :: fs, h => by
    have hparts := isPlainFields_cons h
    rw [jsonableFields, jsonable_of_isPlain t hparts.1, jsonableFields_of_isPlain fs hparts.2]
    rfl

end

omit [Engine] in
theorem isPlain_ne (h : isPlain t = true) : t ≠ .jsonType ∧ t ≠ .markdownType := by
  refine ⟨?_, ?_⟩ <;> rintro rfl <;> cases h

/-- **What a column comes back as**: the same, with null structs filled. -/
theorem castThroughJson_eq (hplain : isPlain t = true) (hnames : jsonBuildable t = true)
    (hstring : t ≠ .stringType) (column : Column t) :
    castThroughJson t column.series = .ok ⟨column.series.dtype, column.series.values.map (fill t)⟩ := by
  obtain ⟨hjson, hmarkdown⟩ := isPlain_ne hplain
  obtain ⟨jsons, hjsons, hencodes⟩ :=
    castFenicDtypeToJson_encodes ⟨column.dtype_eq, column.fits⟩ (jsonable_of_isPlain t hplain)
  rw [castThroughJson, castSeries_to_json hjson hmarkdown hstring, hjsons, Except.ok_bind,
    castSeries_of_json hjson hmarkdown, castJsonToFenicDtype_printed,
    castJsonHelper_fill t hplain hnames _ _ hencodes, column.dtype_eq]

/-- **Columns without null structs come back as they were.** -/
theorem castThroughJson_self (t : DataType) (hplain : isPlain t = true) (hnames : jsonBuildable t = true)
    (hstring : t ≠ .stringType) (column : Column t) (hnone : ∀ v ∈ column.series.values, NoNullStruct t v) :
    castThroughJson t column.series = .ok column.series := by
  rw [castThroughJson_eq hplain hnames hstring]
  have hmap : column.series.values.map (fill t) = column.series.values.map id := by
    apply List.map_congr_left
    intro v hv
    exact fill_eq_self t v (column.fits v hv) (hnone v hv)
  rw [hmap, List.map_id]

end

/-! ### Points, a greeting and a point that is missing -/

/-- Points with a name: a null array, and one with a point whose fields are null. -/
def points : Column (.arrayType (.structType [("x", .integerType), ("names", .arrayType .stringType)])) where
  series := ⟨.list (.struct [("x", .int64), ("names", .list .string)]), [.null, .list [.struct [.null, .null]]]⟩
  dtype_eq := rfl
  fits := by
    intro v hv
    simp only [List.mem_cons, List.not_mem_nil, or_false] at hv
    rcases hv with rfl | rfl
    · exact .null _
    · refine .list fun item hitem => ?_
      rw [List.mem_singleton.mp hitem]
      exact .struct (.cons (.null _) (.cons (.null _) .nil))

theorem points_castThroughJson :
    (∀ v ∈ points.series.values, NoNullStruct (.arrayType (.structType [("x", .integerType), ("names", .arrayType .stringType)])) v) ∧
      castThroughJson (.arrayType (.structType [("x", .integerType), ("names", .arrayType .stringType)])) points.series =
        .ok points.series := by
  have hnone : ∀ v ∈ points.series.values,
      NoNullStruct (.arrayType (.structType [("x", .integerType), ("names", .arrayType .stringType)])) v := by
    intro v hv
    simp only [points, List.mem_cons, List.not_mem_nil, or_false] at hv
    rcases hv with rfl | rfl
    · trivial
    · intro item hitem
      rw [List.mem_singleton.mp hitem]
      exact ⟨trivial, trivial, trivial⟩
  exact ⟨hnone, castThroughJson_self _ (by decide) (by decide) (by decide) points hnone⟩

/-- A column with the text `hello`, which is no document. -/
def greeting : Column .stringType :=
  ⟨⟨.string, [.text (.raw "hello")]⟩, rfl, fun _ hv => List.mem_singleton.mp hv ▸ .text rfl _⟩

/-- A column with a null struct. -/
def noPoint : Column (.structType [("x", .integerType)]) :=
  ⟨⟨.struct [("x", .int64)], [.null]⟩, rfl, fun _ hv => List.mem_singleton.mp hv ▸ .null _⟩

/-- The text is read as a document, and the null struct becomes a struct of a null. -/
theorem castThroughJson_changes :
    castThroughJson .stringType greeting.series ≠ .ok greeting.series ∧
      castThroughJson (.structType [("x", .integerType)]) noPoint.series ≠ .ok noPoint.series := by
  constructor
  · have hnull : castThroughJson .stringType greeting.series = .ok ⟨.string, [.null]⟩ := by
      have hjson : castStringToJson greeting.series = .ok ⟨.string, [.null]⟩ := by
        simp [castStringToJson, greeting, fromStr, Engine.fromStr]
      rw [castThroughJson, castSeries_string_json, hjson, Except.ok_bind, castSeries_of_json (by decide) (by decide)]
      rfl
    rw [hnull]
    intro h
    injection h with h
    injection h with _ h
    cases h
  · rw [castThroughJson_eq (by decide) (by decide) (by decide) noPoint]
    intro h
    injection h with h
    injection h with _ h
    cases h

end Dtypes

end Fenic
