import Fenic.Dtypes.Cast

/-!
# `Dtypes.Soundness` — casts that keep the planner's promise

Every arm of `castSeries` returns a column of the canonical type with as many rows when the two types are
castable. The recursion of the proofs is that of the functions.
-/

namespace Fenic

namespace Dtypes

variable [Engine]

/-- The series of a column of a logical type. -/
def IsColumn (t : DataType) (s : Series) : Prop :=
  s.dtype = canonicalPolarsType t ∧ ∀ v ∈ s.values, Fits t v

/-- A result of a type, with a number of rows. -/
def Returns (r : Except CastError Series) (dtype : PolarsDType) (len : Nat) : Prop :=
  ∃ s, r = .ok s ∧ s.dtype = dtype ∧ s.len = len

/-! ## The arms of the cast -/

section Arms

variable {src dst : DataType} {s : Series}

theorem castSeries_self (t : DataType) (s : Series) : castSeries t t s = .ok s := by
  rw [castSeries.eq_def, if_pos rfl]

theorem castSeries_to_markdown (hne : src ≠ .markdownType) (hstring : src ≠ .stringType) :
    castSeries src .markdownType s = castSeries src .stringType s := by
  rw [castSeries.eq_def, if_neg hne, if_pos rfl, if_neg hstring]

theorem castSeries_of_markdown (hne : dst ≠ .markdownType) (hstring : dst ≠ .stringType) :
    castSeries .markdownType dst s = castSeries .stringType dst s := by
  rw [castSeries.eq_def, if_neg hne.symm, if_neg hne, if_pos rfl, if_neg hstring]

theorem castSeries_string_markdown : castSeries .stringType .markdownType s = .ok s := by
  rw [castSeries.eq_def]
  rfl

theorem castSeries_markdown_string : castSeries .markdownType .stringType s = .ok s := by
  rw [castSeries.eq_def]
  rfl

theorem castSeries_string_json : castSeries .stringType .jsonType s = castStringToJson s := by
  rw [castSeries.eq_def]
  rfl

theorem castSeries_to_json (hjson : src ≠ .jsonType) (hmarkdown : src ≠ .markdownType) (hstring : src ≠ .stringType) :
    castSeries src .jsonType s = castFenicDtypeToJson s := by
  rw [castSeries.eq_def, if_neg hjson, if_neg (by decide), if_neg hmarkdown, if_pos rfl, if_neg hstring]

theorem castSeries_of_json (hjson : dst ≠ .jsonType) (hmarkdown : dst ≠ .markdownType) :
    castSeries .jsonType dst s = castJsonToFenicDtype s dst := by
  rw [castSeries.eq_def, if_neg hjson.symm, if_neg hmarkdown, if_neg (by decide), if_neg hjson, if_pos rfl]

theorem castSeries_array {e e' : DataType} (hne : e ≠ e') {inner : PolarsDType} {values : List Value} :
    castSeries (.arrayType e) (.arrayType e') ⟨.list inner, values⟩ = (do
      let rows ← values.mapM (castItem (fun items => castSeries e e' ⟨inner, items⟩))
      Series.buildList (canonicalPolarsType e') rows) := by
  have hne' : (DataType.arrayType e) ≠ .arrayType e' := fun heq => hne (DataType.arrayType.inj heq)
  rw [castSeries.eq_def]
  simp only [hne', reduceCtorEq, if_false]

theorem castSeries_struct {ss ds : List (String × DataType)} (hne : ss ≠ ds) {fields : List (String × PolarsDType)}
    {values : List Value} :
    castSeries (.structType ss) (.structType ds) ⟨.struct fields, values⟩ = (do
      let casted ← castStructFields ss (Series.fieldsAsSeries fields values) values.length ds
      Series.fromSeries values.length casted) := by
  have hne' : (DataType.structType ss) ≠ .structType ds := fun heq => hne (DataType.structType.inj heq)
  rw [castSeries.eq_def]
  simp only [hne', reduceCtorEq, if_false]
  rfl

theorem castSeries_array_embedding (e : DataType) (d : Nat) (m : String) :
    castSeries (.arrayType e) (.embeddingType d m) s = castArrayToEmbedding s d := by
  rw [castSeries.eq_def]
  simp only [reduceCtorEq, if_false]

theorem castSeries_embedding_array (e : DataType) (d : Nat) (m : String) :
    castSeries (.embeddingType d m) (.arrayType e) s = s.cast (.list .float32) := by
  rw [castSeries.eq_def]
  simp only [reduceCtorEq, if_false]

/-- Embeddings are cast to nothing else. -/
theorem castSeries_embedding (hemb : isEmbedding src = true) (hne : src ≠ dst) (hmarkdown : dst ≠ .markdownType)
    (hjson : dst ≠ .jsonType) (harray : ∀ t, dst ≠ .arrayType t) :
    ∃ message, castSeries src dst s = .error (.todo message) := by
  cases src with
  | embeddingType d m =>
    rw [castSeries.eq_def]
    simp only [hne, hmarkdown, hjson, reduceCtorEq, if_false]
    cases dst <;> first | exact ⟨_, rfl⟩ | exact absurd rfl (harray _)
  | _ => cases hemb

theorem castSeries_primitive (hsrc : src.isPrimitive = true) (hdst : dst.isPrimitive = true) (hne : src ≠ dst) :
    castSeries src dst s = s.cast (canonicalPolarsType dst) := by
  rw [castSeries.eq_def, if_neg hne]
  cases src <;> first
    | exact absurd hsrc Bool.false_ne_true
    | (cases dst <;> first | exact absurd hdst Bool.false_ne_true | rfl)

end Arms

/-! ## JSON -/

theorem toJson_null (dtype : PolarsDType) : toJson dtype .null = .ok .null := by
  cases dtype <;> rfl

mutual

theorem toJson_ok : ∀ (t : DataType) (v : Value), Fits t v → jsonable t = true →
    ∃ json, toJson (canonicalPolarsType t) v = .ok json
  | .arrayType t, v, hfits, hjsonable => by
    rcases fits_array hfits with rfl | ⟨items, rfl, hitems⟩
    · exact ⟨.null, toJson_null _⟩
    · have hitem : ∀ item ∈ items, ∃ json, toJson (canonicalPolarsType t) item = .ok json ∧ True := by
        intro item hitem
        obtain ⟨json, hjson⟩ := toJson_ok t item (hitems item hitem) hjsonable
        exact ⟨json, hjson, trivial⟩
      obtain ⟨jsons, hjsons, -⟩ := Except.mapM_ok hitem
      exact ⟨.array jsons, by rw [canonicalPolarsType, toJson, hjsons]; rfl⟩
  | .structType fs, v, hfits, hjsonable => by
    rcases fits_struct hfits with rfl | ⟨values, rfl, hvalues⟩
    · exact ⟨.null, toJson_null _⟩
    · obtain ⟨members, hmembers⟩ := toJsonFields_ok fs values hvalues hjsonable
      exact ⟨.object members, by rw [canonicalPolarsType, toJson, hmembers]; rfl⟩
  | .embeddingType d m, v, hfits, _ => by
    rcases fits_embedding hfits with rfl | ⟨items, rfl, hitems⟩
    · exact ⟨.null, toJson_null _⟩
    · have hitem : ∀ item ∈ items, ∃ json, toJson .float32 item = .ok json ∧ True := by
        intro item hitem
        rcases fits_float (hitems item hitem) with rfl | ⟨x, rfl⟩
        · exact ⟨.null, rfl, trivial⟩
        · exact ⟨jsonOfFloat x.toFloat, rfl, trivial⟩
      obtain ⟨jsons, hjsons, -⟩ := Except.mapM_ok hitem
      exact ⟨.array jsons, by rw [canonicalPolarsType, toJson, hjsons]; rfl⟩
  | .dateType, v, hfits, hjsonable => by
    have hphysical : Engine.temporalChunks = .physical := by simpa [jsonable] using hjsonable
    rcases fits_date hfits with rfl | ⟨days, rfl⟩
    · exact ⟨.null, toJson_null _⟩
    · exact ⟨jsonOfInt days.toInt64, by simp only [canonicalPolarsType, toJson, hphysical]⟩
  | .timestampType, v, hfits, hjsonable => by
    have hphysical : Engine.temporalChunks = .physical := by simpa [jsonable] using hjsonable
    rcases fits_timestamp hfits with rfl | ⟨micros, rfl⟩
    · exact ⟨.null, toJson_null _⟩
    · exact ⟨jsonOfInt micros, by simp only [canonicalPolarsType, toJson, hphysical]⟩
  | .stringType, v, hfits, _ => by cases hfits <;> exact ⟨_, rfl⟩
  | .integerType, v, hfits, _ => by cases hfits <;> exact ⟨_, rfl⟩
  | .floatType, v, hfits, _ => by cases hfits <;> exact ⟨_, rfl⟩
  | .doubleType, v, hfits, _ => by cases hfits <;> exact ⟨_, rfl⟩
  | .booleanType, v, hfits, _ => by cases hfits <;> exact ⟨_, rfl⟩
  | .markdownType, v, hfits, _ => by cases hfits <;> exact ⟨_, rfl⟩
  | .htmlType, v, hfits, _ => by cases hfits <;> exact ⟨_, rfl⟩
  | .jsonType, v, hfits, _ => by cases hfits <;> exact ⟨_, rfl⟩
  | .transcriptType _, v, hfits, _ => by cases hfits <;> exact ⟨_, rfl⟩
  | .documentPathType _, v, hfits, _ => by cases hfits <;> exact ⟨_, rfl⟩

theorem toJsonFields_ok : ∀ (fs : List (String × DataType)) (values : List Value),
    List.Forall₂ (fun field v => Fits field.2 v) fs values → jsonableFields fs = true →
    ∃ members, toJsonFields (canonicalFields fs) values = .ok members
  | [], _, _, _ => ⟨[], by rw [canonicalFields, toJsonFields.eq_def]⟩
  | (name, t) :: fs, _, .cons hv hvalues, hjsonable => by
    have hparts : jsonable t = true ∧ jsonableFields fs = true := by
      simpa only [jsonableFields, Bool.and_eq_true] using hjsonable
    obtain ⟨json, hjson⟩ := toJson_ok t _ hv hparts.1
    obtain ⟨members, hmembers⟩ := toJsonFields_ok fs _ hvalues hparts.2
    exact ⟨(name, json) :: members, by
      rw [canonicalFields, toJsonFields, hjson, Except.ok_bind, hmembers, Except.ok_bind]⟩

end

variable {t : DataType}

theorem castFenicDtypeToJson_ok {s : Series} (h : IsColumn t s) (hjsonable : jsonable t = true) :
    Returns (castFenicDtypeToJson s) .string s.len := by
  have hrow : ∀ v ∈ s.values, ∃ json, toJson s.dtype v = .ok json ∧ True := by
    intro v hv
    rw [h.1]
    obtain ⟨json, hjson⟩ := toJson_ok t v (h.2 v hv) hjsonable
    exact ⟨json, hjson, trivial⟩
  obtain ⟨rows, hrows, hall⟩ := Except.mapM_ok hrow
  refine ⟨_, by rw [castFenicDtypeToJson, hrows, Except.ok_bind], rfl, ?_⟩
  rw [Series.len, List.length_map, Series.len, hall.length_eq]

theorem castStringToJson_ok {s : Series} (h : s.dtype = .string) : Returns (castStringToJson s) .string s.len := by
  refine ⟨_, by rw [castStringToJson, h], rfl, ?_⟩
  rw [Series.len, List.length_map, Series.len]

/-! ## Lists and structs -/

omit [Engine] in
theorem buildList_ok {inner : PolarsDType} {rows : List (Option Series)}
    (h : ∀ s, some s ∈ rows → s.dtype = inner) : Returns (Series.buildList inner rows) (.list inner) rows.length := by
  have hall : ∀ row ∈ rows, ∀ s ∈ row, s.dtype = inner := by
    intro row hrow s hs
    rw [Option.mem_def.mp hs] at hrow
    exact h s hrow
  refine ⟨_, by rw [Series.buildList, if_pos hall], rfl, ?_⟩
  rw [Series.len, List.length_map]

/-- The columns of a struct have the names and types that were asked for. -/
def FieldsReturned (ds : List (String × DataType)) (len : Nat) (fields : List (String × Series)) : Prop :=
  List.Forall₂ (fun d field => field.1 = d.1 ∧ field.2.dtype = canonicalPolarsType d.2 ∧ field.2.len = len) ds fields

omit [Engine] in
theorem canonicalFields_eq (fs : List (String × DataType)) :
    canonicalFields fs = fs.map (fun f => (f.1, canonicalPolarsType f.2)) := by
  induction fs with
  | nil => rfl
  | cons f fs ih =>
    rw [canonicalFields, ih, List.map_cons]

omit [Engine] in
theorem fromSeries_ok {ds : List (String × DataType)} {len : Nat} {fields : List (String × Series)}
    (h : FieldsReturned ds len fields) (hnodup : (ds.map Prod.fst).Nodup) :
    Returns (Series.fromSeries len fields) (canonicalPolarsType (.structType ds)) len := by
  have hnames : fields.map Prod.fst = ds.map Prod.fst := by
    induction h with
    | nil => rfl
    | cons hfield _ ih => rw [List.map_cons, List.map_cons, hfield.1, ih (List.nodup_cons.mp hnodup).2]
  have hlens : fields.all (fun field => field.2.len == len || field.2.len == 1) = true := by
    refine List.all_eq_true.mpr (fun field hfield => ?_)
    obtain ⟨i, hi, rfl⟩ := List.mem_iff_getElem.mp hfield
    have hd : i < ds.length := h.length_eq ▸ hi
    have hlen := ((List.forall₂_iff_get.mp h).2 i hd hi).2.2
    rw [List.get_eq_getElem] at hlen
    rw [hlen]
    simp
  have hdtypes : fields.map (fun field => (field.1, field.2.dtype)) = canonicalFields ds := by
    rw [canonicalFields_eq]
    clear hnames hlens hnodup
    induction h with
    | nil => rfl
    | cons hfield _ ih => rw [List.map_cons, List.map_cons, hfield.1, hfield.2.1, ih]
  refine ⟨_, by rw [Series.fromSeries, if_pos hlens, hnames, if_pos hnodup], ?_, ?_⟩
  · rw [canonicalPolarsType, hdtypes]
  · rw [Series.len, List.length_map, List.length_range]

/-- The field series of a struct column are columns of the field types. -/
theorem fieldsAsSeries_column (fs : List (String × DataType)) (values : List Value)
    (h : ∀ v ∈ values, Fits (.structType fs) v) (name : String) :
    match mapGet fs name with
    | some t => ∃ series, mapGet (Series.fieldsAsSeries (canonicalFields fs) values) name = some series ∧
        IsColumn t series ∧ series.len = values.length
    | none => mapGet (Series.fieldsAsSeries (canonicalFields fs) values) name = none := by
  induction fs generalizing values with
  | nil => rfl
  | cons f fs ih =>
    obtain ⟨n, t⟩ := f
    have hparts : ∀ v ∈ values, Fits t (Series.firstField v) ∧ Fits (.structType fs) (Series.restFields v) := by
      intro v hv
      rcases fits_struct (h v hv) with rfl | ⟨vs, rfl, hvs⟩
      · exact ⟨Fits.null _, Fits.null _⟩
      · cases hvs with
        | cons hfirst hrest => exact ⟨hfirst, Fits.struct hrest⟩
    have hrest : ∀ v ∈ values.map Series.restFields, Fits (.structType fs) v := by
      intro v hv
      obtain ⟨v₀, hv₀, rfl⟩ := List.mem_map.mp hv
      exact (hparts v₀ hv₀).2
    have hih := ih (values.map Series.restFields) hrest
    rw [canonicalFields, Series.fieldsAsSeries, mapGet, mapGet]
    cases hget : mapGet fs name with
    | some t' =>
      rw [hget] at hih
      obtain ⟨series, hseries, hcolumn, hlen⟩ := hih
      rw [List.length_map] at hlen
      exact ⟨series, by rw [hseries], hcolumn, hlen⟩
    | none =>
      rw [hget] at hih
      rw [hih]
      by_cases hname : n = name
      · simp only [hname, if_true]
        refine ⟨_, rfl, ⟨rfl, fun v hv => ?_⟩, ?_⟩
        · obtain ⟨v₀, hv₀, rfl⟩ := List.mem_map.mp hv
          exact (hparts v₀ hv₀).1
        · rw [Series.len, List.length_map]
      · simp only [hname, if_false]

/-! ## JSON to columns -/

section

omit [Engine]

mutual

theorem castJsonHelper_ok : ∀ (t : DataType), jsonBuildable t = true → ∀ jsons : List Json,
    Returns (castJsonHelper t jsons) (canonicalPolarsType t) jsons.length
  | .arrayType t, hbuildable, jsons => by
    have hrow : ∀ json ∈ jsons, ∃ row, castJsonItem (castJsonHelper t) json = .ok row ∧
        ∀ s, row = some s → s.dtype = canonicalPolarsType t := by
      intro json _
      cases json with
      | array items =>
        obtain ⟨s, hs, hdtype, -⟩ := castJsonHelper_ok t hbuildable items
        exact ⟨some s, by rw [castJsonItem, hs]; rfl, fun s' hs' => (Option.some.inj hs') ▸ hdtype⟩
      | _ => exact ⟨none, rfl, fun s hs => by cases hs⟩
    obtain ⟨rows, hrows, hall⟩ := Except.mapM_ok hrow
    have hdtypes : ∀ s, some s ∈ rows → s.dtype = canonicalPolarsType t := by
      intro s hs
      obtain ⟨i, hi, heq⟩ := List.mem_iff_getElem.mp hs
      have hj : i < jsons.length := hall.length_eq ▸ hi
      exact (List.forall₂_iff_get.mp hall).2 i hj hi s heq
    obtain ⟨result, hresult, hdtype, hlen⟩ := buildList_ok hdtypes
    refine ⟨result, ?_, hdtype, hlen.trans hall.length_eq.symm⟩
    rw [castJsonHelper, hrows, Except.ok_bind, hresult]
  | .structType fs, hbuildable, jsons => by
    have hparts : (fs.map Prod.fst).Nodup ∧ jsonBuildableFields fs = true := by
      simpa only [jsonBuildable, Bool.and_eq_true, decide_eq_true_eq] using hbuildable
    obtain ⟨fields, hfields, hreturned⟩ := castJsonFields_ok fs hparts.2 jsons
    obtain ⟨result, hresult, hdtype, hlen⟩ := fromSeries_ok hreturned hparts.1
    exact ⟨result, by rw [castJsonHelper, hfields, Except.ok_bind, hresult], hdtype, hlen⟩
  | .stringType, _, jsons => ⟨_, rfl, rfl, List.length_map _⟩
  | .integerType, _, jsons => ⟨_, rfl, rfl, List.length_map _⟩
  | .floatType, _, jsons => ⟨_, rfl, rfl, List.length_map _⟩
  | .doubleType, _, jsons => ⟨_, rfl, rfl, List.length_map _⟩
  | .booleanType, _, jsons => ⟨_, rfl, rfl, List.length_map _⟩
  | .jsonType, _, jsons => ⟨_, rfl, rfl, List.length_map _⟩
  | .embeddingType _ _, _, jsons => ⟨_, rfl, rfl, List.length_map _⟩

theorem castJsonFields_ok : ∀ (fs : List (String × DataType)), jsonBuildableFields fs = true →
    ∀ jsons : List Json, ∃ fields, castJsonFields fs jsons = .ok fields ∧ FieldsReturned fs jsons.length fields
  | [], _, jsons => ⟨[], rfl, List.Forall₂.nil⟩
  | (name, t) :: fs, hbuildable, jsons => by
    have hparts : jsonBuildable t = true ∧ jsonBuildableFields fs = true := by
      simpa only [jsonBuildableFields, Bool.and_eq_true] using hbuildable
    obtain ⟨series, hseries, hdtype, hlen⟩ := castJsonHelper_ok t hparts.1 (jsons.map (member name))
    obtain ⟨fields, hfields, hreturned⟩ := castJsonFields_ok fs hparts.2 jsons
    rw [List.length_map] at hlen
    refine ⟨(name, series) :: fields, ?_, List.Forall₂.cons ⟨rfl, hdtype, hlen⟩ hreturned⟩
    rw [castJsonFields, hseries, Except.ok_bind, hfields, Except.ok_bind]

end

end

theorem castJsonToFenicDtype_ok {s : Series} (h : IsColumn .jsonType s) (ht : jsonBuildable t = true) :
    Returns (castJsonToFenicDtype s t) (canonicalPolarsType t) s.len := by
  have hrow : ∀ v ∈ s.values, ∃ json, parseJson v = .ok json ∧ True := by
    intro v hv
    rcases fits_json (h.2 v hv) with rfl | ⟨text, document, rfl, hparse⟩
    · exact ⟨.null, rfl, trivial⟩
    · exact ⟨document, by rw [parseJson, hparse], trivial⟩
  obtain ⟨jsons, hjsons, hall⟩ := Except.mapM_ok hrow
  obtain ⟨result, hresult, hdtype, hlen⟩ := castJsonHelper_ok t ht jsons
  refine ⟨result, ?_, hdtype, ?_⟩
  · rw [castJsonToFenicDtype, h.1, canonicalPolarsType]
    simp only [hjsons, Except.ok_bind, hresult]
  · rw [hlen, Series.len, hall.length_eq]

/-! ## Scalars -/

omit [Engine] in
theorem isScalar_of_primitive (h : t.isPrimitive = true) : (canonicalPolarsType t).isScalar = true := by
  cases t <;> first | rfl | cases h

theorem cast_scalar {s : Series} {target : PolarsDType} (hs : s.dtype.isScalar = true) (htarget : target.isScalar = true)
    (hsupports : Engine.supports s.dtype target = true) : Returns (s.cast target) target s.len := by
  obtain ⟨dtype, values⟩ := s
  have hcast : Series.cast ⟨dtype, values⟩ target = .ok ⟨target, values.map (Engine.convert dtype target)⟩ := by
    unfold Series.cast
    cases dtype <;> first
      | exact absurd hs Bool.false_ne_true
      | (cases target <;> first | exact absurd htarget Bool.false_ne_true | exact if_pos hsupports)
  exact ⟨_, hcast, rfl, List.length_map _⟩

theorem cast_primitive_ok {src dst : DataType} {s : Series} (hsrc : src.isPrimitive = true)
    (hdst : dst.isPrimitive = true) (hcan : canCastPrimitive src dst = true) (hs : s.dtype = canonicalPolarsType src) :
    Returns (s.cast (canonicalPolarsType dst)) (canonicalPolarsType dst) s.len := by
  have hscalar := isScalar_of_primitive hsrc
  have htarget := isScalar_of_primitive hdst
  refine cast_scalar (hs ▸ hscalar) htarget ?_
  rw [hs]
  refine Engine.supports_scalar _ _ hscalar htarget ?_ ?_ ?_
  all_goals
    cases src <;> first
      | exact absurd hsrc Bool.false_ne_true
      | (cases dst <;> first
          | exact absurd hdst Bool.false_ne_true
          | exact absurd hcan (by decide)
          | simp [canonicalPolarsType])

/-! ## All casts -/

theorem fits_string_of_markdown {v : Value} (h : Fits .markdownType v) : Fits .stringType v := by
  cases h with
  | null => exact Fits.null _
  | text h text => exact Fits.text rfl text

/-- What can be cast from Markdown can be cast from text. -/
theorem castable_of_markdown {dst : DataType} (h : castable dst .markdownType = true) (hne : dst ≠ .markdownType) :
    castable dst .stringType = true ∧ isEmbedding dst = false := by
  cases dst <;> first
    | exact absurd rfl hne
    | exact ⟨rfl, rfl⟩
    | simp [castable] at h

/-- JSON that can be cast to a type can be built into it. -/
theorem jsonBuildable_of_castable {dst : DataType} (h : castable dst .jsonType = true)
    (himpl : isUnimplemented dst = false) (hmarkdown : dst ≠ .markdownType) : jsonBuildable dst = true := by
  cases dst with
  | arrayType t => simpa [castable, jsonBuildable] using h
  | structType fs => simpa [castable, jsonBuildable] using h
  | markdownType => exact absurd rfl hmarkdown
  | dateType => simp [castable] at h
  | timestampType => simp [castable] at h
  | htmlType => cases himpl
  | transcriptType => cases himpl
  | documentPathType => cases himpl
  | _ => rfl

mutual

/-- **An allowed and castable cast is sound.** The induction is on the target type, and on the source type where
    Markdown is taken as text. -/
theorem castSeries_ok (src dst : DataType) (hallowed : Allowed src dst) (hcast : castable dst src = true) (s : Series)
    (hs : IsColumn src s) : Returns (castSeries src dst s) (canonicalPolarsType dst) s.len := by
  by_cases heq : src = dst
  · subst heq
    exact ⟨s, castSeries_self src s, hs.1, rfl⟩
  by_cases htoMarkdown : dst = .markdownType
  · subst htoMarkdown
    have hemb : isEmbedding src = false := by simpa [castable, heq] using hcast
    by_cases hstring : src = .stringType
    · subst hstring
      exact ⟨s, castSeries_string_markdown, hs.1, rfl⟩
    · have hcastString : castable .stringType src = true := by simp [castable, hemb]
      rw [castSeries_to_markdown heq hstring]
      exact castSeries_ok src .stringType (hallowed.to_markdown hemb heq) hcastString s hs
  by_cases hofMarkdown : src = .markdownType
  · subst hofMarkdown
    obtain ⟨hcastString, hemb⟩ := castable_of_markdown hcast htoMarkdown
    by_cases hstring : dst = .stringType
    · subst hstring
      exact ⟨s, castSeries_markdown_string, hs.1, rfl⟩
    · rw [castSeries_of_markdown htoMarkdown hstring]
      exact castSeries_ok .stringType dst (hallowed.of_markdown hemb htoMarkdown) hcastString s
        ⟨hs.1, fun v hv => fits_string_of_markdown (hs.2 v hv)⟩
  by_cases htoJson : dst = .jsonType
  · subst htoJson
    by_cases hstring : src = .stringType
    · subst hstring
      rw [castSeries_string_json]
      exact castStringToJson_ok hs.1
    · have hjsonable : jsonable src = true := by simpa [castable, hstring] using hcast
      rw [castSeries_to_json heq hofMarkdown hstring]
      exact castFenicDtypeToJson_ok hs hjsonable
  by_cases hofJson : src = .jsonType
  · subst hofJson
    rw [castSeries_of_json htoJson htoMarkdown]
    exact castJsonToFenicDtype_ok hs (jsonBuildable_of_castable hcast hallowed.unimplemented.2 htoMarkdown)
  -- neither side is a text with a meaning of its own
  obtain ⟨sdtype, values⟩ := s
  cases dst with
  | arrayType t =>
    cases src with
    | arrayType e =>
      have hne : e ≠ t := fun h => heq (h ▸ rfl)
      have hcastElement : castable t e = true := by simpa [castable, hne] using hcast
      have hdtype : sdtype = .list (canonicalPolarsType e) := hs.1
      subst hdtype
      have hrow : ∀ v ∈ values, ∃ row, castItem (fun items => castSeries e t ⟨canonicalPolarsType e, items⟩) v =
          .ok row ∧ ∀ s, row = some s → s.dtype = canonicalPolarsType t := by
        intro v hv
        rcases fits_array (hs.2 v hv) with rfl | ⟨items, rfl, hitems⟩
        · exact ⟨none, rfl, fun s hs => by cases hs⟩
        · obtain ⟨casted, hcasted, hdtype, -⟩ :=
            castSeries_ok e t (hallowed.array hne) hcastElement ⟨canonicalPolarsType e, items⟩ ⟨rfl, hitems⟩
          exact ⟨some casted, by rw [castItem, hcasted]; rfl, fun s hs => (Option.some.inj hs) ▸ hdtype⟩
      obtain ⟨rows, hrows, hall⟩ := Except.mapM_ok hrow
      have hdtypes : ∀ s, some s ∈ rows → s.dtype = canonicalPolarsType t := by
        intro s hs
        obtain ⟨i, hi, hget⟩ := List.mem_iff_getElem.mp hs
        have hj : i < values.length := hall.length_eq ▸ hi
        exact (List.forall₂_iff_get.mp hall).2 i hj hi s hget
      obtain ⟨result, hresult, hdtype, hlen⟩ := buildList_ok hdtypes
      refine ⟨result, ?_, hdtype, hlen.trans hall.length_eq.symm⟩
      rw [castSeries_array hne, hrows, Except.ok_bind, hresult]
    | embeddingType d m =>
      have ht : t = .floatType := by simpa [castable] using hcast
      have hdtype : sdtype = .array .float32 d := hs.1
      subst ht hdtype
      exact ⟨⟨.list .float32, values⟩, by rw [castSeries_embedding_array]; rfl, rfl, rfl⟩
    | jsonType => exact absurd rfl hofJson
    | _ => simp [castable] at hcast
  | structType ds =>
    cases src with
    | structType ss =>
      have hne : ss ≠ ds := fun h => heq (h ▸ rfl)
      have hparts : (ds.map Prod.fst).Nodup ∧ castableFields ds ss = true := by
        simpa [castable, hne] using hcast
      have hdtype : sdtype = .struct (canonicalFields ss) := hs.1
      subst hdtype
      obtain ⟨fields, hfields, hreturned⟩ :=
        castStructFields_ok ss ds (hallowed.struct hne) hparts.1 hparts.2 values hs.2
      obtain ⟨result, hresult, hdtype, hlen⟩ := fromSeries_ok hreturned hparts.1
      exact ⟨result, by rw [castSeries_struct hne, hfields, Except.ok_bind, hresult], hdtype, hlen⟩
    | jsonType => exact absurd rfl hofJson
    | _ => simp [castable] at hcast
  | embeddingType d m => simp [castable, heq, hofJson] at hcast
  | markdownType => exact absurd rfl htoMarkdown
  | jsonType => exact absurd rfl htoJson
  | htmlType | transcriptType _ | documentPathType _ => cases hallowed.unimplemented.2
  | _ =>
    have hemb : isEmbedding src = false := by simpa [castable, heq, hofJson] using hcast
    obtain ⟨hsrc, hcan⟩ := hallowed.primitive rfl hemb heq hofMarkdown hofJson
    rw [castSeries_primitive hsrc rfl heq]
    exact cast_primitive_ok hsrc rfl hcan hs.1
  termination_by (weight dst, weight src)
  decreasing_by all_goals (subst_vars; simp [weight, Prod.lex_def])

theorem castStructFields_ok (ss ds : List (String × DataType)) (hallowed : AllowedFields ss ds)
    (hnodup : (ds.map Prod.fst).Nodup) (hcast : castableFields ds ss = true) (values : List Value)
    (hvalues : ∀ v ∈ values, Fits (.structType ss) v) :
    ∃ fields, castStructFields ss (Series.fieldsAsSeries (canonicalFields ss) values) values.length ds = .ok fields ∧
      FieldsReturned ds values.length fields := by
  match ds with
  | [] => exact ⟨[], by rw [castStructFields], List.Forall₂.nil⟩
  | (name, t) :: rest =>
    obtain ⟨hnot, hnodupRest⟩ := List.nodup_cons.mp hnodup
    obtain ⟨hallowedRest, hallowedField⟩ := hallowed.cons
    have hparts := hcast
    rw [castableFields, Bool.and_eq_true] at hparts
    obtain ⟨others, hothers, hreturned⟩ :=
      castStructFields_ok ss rest hallowedRest hnodupRest hparts.2 values hvalues
    have hcolumn := fieldsAsSeries_column ss values hvalues name
    cases hget : mapGet ss name with
    | none =>
      rw [hget] at hparts hcolumn
      refine ⟨(name, ⟨canonicalPolarsType t, List.replicate values.length .null⟩) :: others, ?_,
        List.Forall₂.cons ⟨rfl, rfl, List.length_replicate⟩ hreturned⟩
      rw [castStructFields, castStructField, hcolumn]
      simp only [Series.fullNull, hparts.1, if_true, Except.ok_bind, hothers]
    | some srcType =>
      rw [hget] at hparts hcolumn
      obtain ⟨series, hseries, hisColumn, hlen⟩ := hcolumn
      obtain ⟨casted, hcasted, hdtype, hcastedLen⟩ :=
        castSeries_ok srcType t (hallowedField hnot srcType hget) hparts.1 series hisColumn
      refine ⟨(name, casted) :: others, ?_, List.Forall₂.cons ⟨rfl, hdtype, hcastedLen.trans hlen⟩ hreturned⟩
      rw [castStructFields, castStructField, hseries, hget]
      by_cases heq : srcType = t
      · subst heq
        rw [castSeries_self] at hcasted
        cases hcasted
        simp only [if_true, Except.ok_bind, hothers]
      · simp only [heq, if_false, hcasted, Except.ok_bind, hothers]
  termination_by (weightFields ds, 0)
  decreasing_by all_goals (simp only [weightFields, Prod.lex_def]; omega)

end

end Dtypes

end Fenic
