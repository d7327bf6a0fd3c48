import Fenic.Dtypes.Soundness

/-!
# `Dtypes.Agreement` — casts that break the planner's promise

A type that is not castable has a value on which the cast raises, or returns a column of another type. With
`castSeries_ok` this decides, from the two types alone, whether an allowed cast is sound for every column.
-/

namespace Fenic

namespace Dtypes

section

variable [Engine]

/-- A result that is no column of the type. -/
def Misses (r : Except CastError Series) (t : DataType) : Prop :=
  ∀ s, r = .ok s → s.dtype ≠ canonicalPolarsType t

omit [Engine] in
theorem misses_error (e : CastError) (t : DataType) : Misses (.error e) t := by
  intro s hs
  cases hs

/-! ## Values that do not become JSON -/

omit [Engine] in
/-- A list of one row. -/
theorem mapM_singleton {α β ε : Type} (f : α → Except ε β) (x : α) : [x].mapM f = (f x).map (fun y => [y]) := by
  rw [List.mapM_cons]
  cases f x <;> rfl

mutual

theorem toJson_fails : ∀ t : DataType, jsonable t = false →
    ∃ v e, Fits t v ∧ toJson (canonicalPolarsType t) v = .error e
  | .arrayType t, h => by
    obtain ⟨v, e, hfits, hfails⟩ := toJson_fails t h
    have hitems : ∀ item ∈ [v], Fits t item := fun item hitem => List.mem_singleton.mp hitem ▸ hfits
    refine ⟨.list [v], e, Fits.list hitems, ?_⟩
    rw [canonicalPolarsType, toJson, mapM_singleton, hfails]
    rfl
  | .structType fs, h => by
    obtain ⟨values, e, hfits, hfails⟩ := toJsonFields_fails fs h
    refine ⟨.struct values, e, Fits.struct hfits, ?_⟩
    rw [canonicalPolarsType, toJson, hfails]
    rfl
  | .dateType, h => by
    have hlogical : Engine.temporalChunks = .logical := by
      cases hchunks : Engine.temporalChunks with
      | physical => simp [jsonable, hchunks] at h
      | logical => rfl
    exact ⟨.date 0, _, Fits.date 0, by simp only [canonicalPolarsType, toJson, hlogical]; rfl⟩
  | .timestampType, h => by
    have hlogical : Engine.temporalChunks = .logical := by
      cases hchunks : Engine.temporalChunks with
      | physical => simp [jsonable, hchunks] at h
      | logical => rfl
    exact ⟨.timestamp 0, _, Fits.timestamp 0, by simp only [canonicalPolarsType, toJson, hlogical]; rfl⟩

theorem toJsonFields_fails : ∀ fs : List (String × DataType), jsonableFields fs = false →
    ∃ values e, List.Forall₂ (fun field v => Fits field.2 v) fs values ∧
      toJsonFields (canonicalFields fs) values = .error e
  | (name, t) :: fs, h => by
    cases ht : jsonable t with
    | false =>
      obtain ⟨v, e, hfits, hfails⟩ := toJson_fails t ht
      have hnulls : List.Forall₂ (fun (field : String × DataType) v => Fits field.2 v) fs
          (fs.map (fun _ => Value.null)) := by
        rw [List.forall₂_map_right_iff, List.forall₂_same]
        exact fun field _ => Fits.null _
      refine ⟨v :: fs.map (fun _ => .null), e, List.Forall₂.cons hfits hnulls, ?_⟩
      rw [canonicalFields, toJsonFields, hfails, Except.error_bind]
    | true =>
      have hrest : jsonableFields fs = false := by
        rw [jsonableFields, ht, Bool.true_and] at h
        exact h
      obtain ⟨values, e, hfits, hfails⟩ := toJsonFields_fails fs hrest
      -- the first field is null, which is JSON
      refine ⟨.null :: values, e, List.Forall₂.cons (Fits.null t) hfits, ?_⟩
      rw [canonicalFields, toJsonFields, toJson_null, Except.ok_bind, hfails, Except.error_bind]

end

/-! ## JSON that does not become a column -/

variable {t : DataType}

omit [Engine] in
theorem buildList_misses {s : Series} {rows : List (Option Series)} (hmem : some s ∈ rows)
    (hdtype : s.dtype ≠ canonicalPolarsType t) : Misses (Series.buildList (canonicalPolarsType t) rows) (.arrayType t) := by
  have hnot : ¬ ∀ row ∈ rows, ∀ s ∈ row, s.dtype = canonicalPolarsType t :=
    fun h => hdtype (h (some s) hmem s rfl)
  rw [Series.buildList, if_neg hnot]
  exact misses_error _ _

omit [Engine] in
/-- The row of an array whose elements do not cast. -/
theorem array_misses {α : Type} {r : Except CastError Series} {item : α → Except CastError (Option Series)}
    {x : α} (hitem : item x = r.map some) (hmisses : Misses r t) :
    Misses ([x].mapM item >>= fun rows => Series.buildList (canonicalPolarsType t) rows) (.arrayType t) := by
  rw [mapM_singleton, hitem]
  cases r with
  | error e => exact misses_error e _
  | ok s => exact buildList_misses List.mem_cons_self (hmisses s rfl)

omit [Engine] in
theorem fromSeries_dtype {len : Nat} {fields : List (String × Series)} {s : Series}
    (h : Series.fromSeries len fields = .ok s) :
    s.dtype = .struct (fields.map (fun field => (field.1, field.2.dtype))) ∧ (fields.map Prod.fst).Nodup := by
  unfold Series.fromSeries at h
  split at h
  · split at h
    · rename_i hnodup
      cases h
      exact ⟨rfl, hnodup⟩
    · cases h
  · cases h

/-- Struct fields that do not have the names and types asked for. -/
def FieldsMiss (r : Except CastError (List (String × Series))) (fs : List (String × DataType)) : Prop :=
  ∀ fields, r = .ok fields → fields.map (fun field => (field.1, field.2.dtype)) ≠ canonicalFields fs

omit [Engine] in
/-- The result of a struct cast needs the fields, and needs their names to differ. -/
theorem struct_misses {fs : List (String × DataType)} {r : Except CastError (List (String × Series))} {len : Nat}
    (h : ¬ (fs.map Prod.fst).Nodup ∨ FieldsMiss r fs) :
    Misses (r >>= fun fields => Series.fromSeries len fields) (.structType fs) := by
  intro s hs heq
  obtain ⟨fields, hfields, hfrom⟩ := Except.bind_eq_ok.mp hs
  obtain ⟨hdtype, hnodup⟩ := fromSeries_dtype hfrom
  rw [hdtype, canonicalPolarsType] at heq
  have hcanonical := PolarsDType.struct.inj heq
  rcases h with hdup | hmiss
  · apply hdup
    have hnames := congrArg (List.map Prod.fst) hcanonical
    rw [canonicalFields_eq, List.map_map, List.map_map] at hnames
    have hsame : fields.map Prod.fst = fs.map Prod.fst := hnames
    rwa [← hsame]
  · exact hmiss fields hfields hcanonical

section

omit [Engine]

mutual

theorem castJsonHelper_misses : ∀ t : DataType, jsonBuildable t = false → ∃ json, Misses (castJsonHelper t [json]) t
  | .arrayType t, h => by
    obtain ⟨json, hmisses⟩ := castJsonHelper_misses t h
    refine ⟨.array [json], ?_⟩
    exact array_misses rfl hmisses
  | .structType fs, h => by
    by_cases hnodup : (fs.map Prod.fst).Nodup
    · have hfields : jsonBuildableFields fs = false := by simpa [jsonBuildable, hnodup] using h
      obtain ⟨members, hmiss⟩ := castJsonFields_misses fs hfields hnodup
      refine ⟨.object members, ?_⟩
      exact struct_misses (Or.inr hmiss)
    · refine ⟨.null, ?_⟩
      exact struct_misses (Or.inl hnodup)
  | .dateType, _ => ⟨.null, misses_error _ _⟩
  | .timestampType, _ => ⟨.null, misses_error _ _⟩
  | .markdownType, _ => ⟨.null, misses_error _ _⟩
  | .htmlType, _ => ⟨.null, misses_error _ _⟩
  | .transcriptType _, _ => ⟨.null, misses_error _ _⟩
  | .documentPathType _, _ => ⟨.null, misses_error _ _⟩

/-- One member of the object is enough: that of the field that does not cast. -/
theorem castJsonFields_misses : ∀ fs : List (String × DataType), jsonBuildableFields fs = false →
    (fs.map Prod.fst).Nodup → ∃ members, FieldsMiss (castJsonFields fs [.object members]) fs
  | (name, t) :: fs, h, hnodup => by
    cases ht : jsonBuildable t with
    | false =>
      obtain ⟨json, hmisses⟩ := castJsonHelper_misses t ht
      refine ⟨[(name, json)], fun fields hfields heq => ?_⟩
      obtain ⟨series, hseries, hrest⟩ := Except.bind_eq_ok.mp hfields
      obtain ⟨others, hothers, hcons⟩ := Except.bind_eq_ok.mp hrest
      cases hcons
      have hmember : [Json.object [(name, json)]].map (member name) = [json] := by simp [member]
      rw [hmember] at hseries
      exact hmisses series hseries (Prod.mk.inj (List.cons.inj heq).1).2
    | true =>
      have hrest : jsonBuildableFields fs = false := by
        rw [jsonBuildableFields, ht, Bool.true_and] at h
        exact h
      obtain ⟨members, hmiss⟩ := castJsonFields_misses fs hrest (List.nodup_cons.mp hnodup).2
      refine ⟨members, fun fields hfields heq => ?_⟩
      obtain ⟨series, -, hrest⟩ := Except.bind_eq_ok.mp hfields
      obtain ⟨others, hothers, hcons⟩ := Except.bind_eq_ok.mp hrest
      cases hcons
      exact hmiss others hothers (List.cons.inj heq).2

end

end

/-! ## Casts that miss -/

/-- A value of one field of a struct, the others null. -/
theorem exists_struct_value {fs : List (String × DataType)} {name : String} {v : Value}
    (hget : mapGet fs name = some t) (hfits : Fits t v) :
    ∃ values, List.Forall₂ (fun field v => Fits field.2 v) fs values ∧
      mapGet (Series.fieldsAsSeries (canonicalFields fs) [.struct values]) name = some ⟨canonicalPolarsType t, [v]⟩ := by
  induction fs with
  | nil => cases hget
  | cons f fs ih =>
    obtain ⟨n, t'⟩ := f
    rw [mapGet] at hget
    cases hrest : mapGet fs name with
    | some t'' =>
      rw [hrest] at hget
      cases hget
      obtain ⟨values, hvalues, hseries⟩ := ih hrest
      refine ⟨.null :: values, List.Forall₂.cons (Fits.null t') hvalues, ?_⟩
      rw [canonicalFields, Series.fieldsAsSeries, mapGet]
      simp only [List.map_cons, List.map_nil, Series.restFields, hseries]
    | none =>
      rw [hrest] at hget
      by_cases hname : n = name
      · simp only [hname, if_true, Option.some.injEq] at hget
        subst hget
        have hnulls : List.Forall₂ (fun (field : String × DataType) v => Fits field.2 v) fs
            (fs.map (fun _ => Value.null)) := by
          rw [List.forall₂_map_right_iff, List.forall₂_same]
          exact fun field _ => Fits.null _
        have hall : ∀ v ∈ [Value.struct (fs.map (fun _ => .null))], Fits (.structType fs) v :=
          fun v hv => List.mem_singleton.mp hv ▸ Fits.struct hnulls
        have hnone := fieldsAsSeries_column fs _ hall name
        rw [hrest] at hnone
        refine ⟨v :: fs.map (fun _ => .null), List.Forall₂.cons hfits hnulls, ?_⟩
        rw [canonicalFields, Series.fieldsAsSeries, mapGet]
        simp only [List.map_cons, List.map_nil, Series.restFields, Series.firstField]
        rw [hnone]
        simp only [hname, if_true]
      · simp only [hname, if_false] at hget
        cases hget

mutual

/-- **An allowed cast that is not castable breaks on some value.** -/
theorem castSeries_misses (src dst : DataType) (hallowed : Allowed src dst) (hcast : castable dst src = false) :
    ∃ v, Fits src v ∧ Misses (castSeries src dst ⟨canonicalPolarsType src, [v]⟩) dst := by
  have heq : src ≠ dst := by
    rintro rfl
    rw [castable_self] at hcast
    cases hcast
  by_cases htoJson : dst = .jsonType
  · subst htoJson
    have hstring : src ≠ .stringType := by
      rintro rfl
      simp [castable] at hcast
    have hjsonable : jsonable src = false := by simpa [castable, hstring] using hcast
    have hmarkdown : src ≠ .markdownType := by
      rintro rfl
      cases hjsonable
    obtain ⟨v, e, hfits, hfails⟩ := toJson_fails src hjsonable
    refine ⟨v, hfits, ?_⟩
    rw [castSeries_to_json heq hmarkdown hstring, castFenicDtypeToJson, mapM_singleton, hfails]
    exact misses_error e _
  by_cases hemb : isEmbedding src = true
  · -- the planner lets every embedding through
    by_cases htoMarkdown : dst = .markdownType
    · subst htoMarkdown
      have hstring : src ≠ .stringType := by
        rintro rfl
        cases hemb
      obtain ⟨message, htodo⟩ : ∃ message, castSeries src .stringType ⟨canonicalPolarsType src, [.null]⟩ =
          .error (.todo message) := castSeries_embedding hemb hstring (by decide) (by decide) (fun t => by simp)
      exact ⟨.null, Fits.null _, by rw [castSeries_to_markdown heq hstring, htodo]; exact misses_error _ _⟩
    · by_cases harray : ∃ t, dst = .arrayType t
      · obtain ⟨t, rfl⟩ := harray
        cases src with
        | embeddingType d m =>
          have hfloat : t ≠ .floatType := by simpa [castable] using hcast
          refine ⟨.null, Fits.null _, ?_⟩
          rw [castSeries_embedding_array]
          intro s hs
          cases hs
          -- the list of floats is the canonical type of no other array
          intro hdtype
          have hinner := PolarsDType.list.inj hdtype
          cases t <;> simp [canonicalPolarsType] at hinner
          exact hfloat rfl
        | _ => cases hemb
      · obtain ⟨message, htodo⟩ : ∃ message, castSeries src dst ⟨canonicalPolarsType src, [.null]⟩ =
            .error (.todo message) :=
          castSeries_embedding hemb heq htoMarkdown htoJson (fun t h => harray ⟨t, h⟩)
        exact ⟨.null, Fits.null _, htodo ▸ misses_error _ _⟩
  have hemb' : isEmbedding src = false := by simpa using hemb
  by_cases hofJson : src = .jsonType
  · subst hofJson
    have htoMarkdown : dst ≠ .markdownType := by
      rintro rfl
      simp [castable, isEmbedding] at hcast
    have hbuildable : jsonBuildable dst = false := by
      cases dst <;> first | rfl | exact absurd rfl htoJson | (simp [castable, isEmbedding] at hcast; done) | (simpa [castable, jsonBuildable] using hcast)
    obtain ⟨json, hmisses⟩ := castJsonHelper_misses dst hbuildable
    refine ⟨.text (.printed json), Fits.json rfl, ?_⟩
    rw [castSeries_of_json htoJson htoMarkdown]
    exact hmisses
  -- what is left has parts, since everything else is castable
  have hcompound : isCompound dst = true := by
    cases dst <;> first | rfl | exact absurd rfl htoJson | simp [castable, hemb', hofJson] at hcast
  rcases hallowed.compound hcompound hemb' heq hofJson with
    ⟨e, t, rfl, rfl⟩ | ⟨ss, ds, rfl, rfl⟩ | ⟨hfloats, d, m, rfl⟩
  · have hne : e ≠ t := fun h => heq (h ▸ rfl)
    have hcastElement : castable t e = false := by simpa [castable, hne] using hcast
    obtain ⟨v, hfits, hmisses⟩ := castSeries_misses e t (hallowed.array hne) hcastElement
    have hitems : ∀ item ∈ [v], Fits e item := fun item hitem => List.mem_singleton.mp hitem ▸ hfits
    refine ⟨.list [v], Fits.list hitems, ?_⟩
    rw [canonicalPolarsType, castSeries_array hne]
    exact array_misses rfl hmisses
  · have hne : ss ≠ ds := fun h => heq (h ▸ rfl)
    by_cases hnodup : (ds.map Prod.fst).Nodup
    · have hcastFields : castableFields ds ss = false := by simpa [castable, hne, hnodup] using hcast
      obtain ⟨values, hfits, hmiss⟩ := castStructFields_misses ss ds (hallowed.struct hne) hnodup hcastFields
      refine ⟨.struct values, Fits.struct hfits, ?_⟩
      rw [canonicalPolarsType, castSeries_struct hne]
      exact struct_misses (Or.inr hmiss)
    · refine ⟨.null, Fits.null _, ?_⟩
      rw [canonicalPolarsType, castSeries_struct hne]
      exact struct_misses (Or.inl hnodup)
  · -- a list that has not the length of the embedding
    have hshort : ∃ items : List Value, items.length ≠ d ∧ ∀ item ∈ items, item = .null := by
      by_cases hd : d = 0
      · exact ⟨[.null], by simp [hd], by simp⟩
      · exact ⟨[], fun h => hd h.symm, by simp⟩
    obtain ⟨items, hlength, hnulls⟩ := hshort
    have hfits : ∀ e, Fits (.arrayType e) (.list items) := fun e =>
      Fits.list (fun item hitem => hnulls item hitem ▸ Fits.null e)
    have hfails : ∀ inner, Series.cast ⟨.list inner, [.list items]⟩ (.array .float32 d) =
        .error (.polars "not all elements have the specified width") := by
      intro inner
      simp [Series.cast, hlength]
    rcases hfloats with rfl | rfl
    · refine ⟨.list items, hfits _, ?_⟩
      rw [castSeries_array_embedding]
      show Misses (Series.cast ⟨.list .float32, [.list items]⟩ (.array .float32 d)) _
      rw [hfails]
      exact misses_error _ _
    · refine ⟨.list items, hfits _, ?_⟩
      rw [castSeries_array_embedding]
      show Misses (Series.cast ⟨.list .float64, [.list items]⟩ (.array .float32 d)) _
      rw [hfails]
      exact misses_error _ _
  termination_by (weight dst, weight src)
  decreasing_by all_goals (subst_vars; simp [weight, Prod.lex_def])

theorem castStructFields_misses (ss ds : List (String × DataType)) (hallowed : AllowedFields ss ds)
    (hnodup : (ds.map Prod.fst).Nodup) (hcast : castableFields ds ss = false) :
    ∃ values, List.Forall₂ (fun field v => Fits field.2 v) ss values ∧
      FieldsMiss (castStructFields ss (Series.fieldsAsSeries (canonicalFields ss) [.struct values]) 1 ds) ds := by
  match ds with
  | [] => cases hcast
  | (name, t) :: rest =>
    obtain ⟨hnot, hnodupRest⟩ := List.nodup_cons.mp hnodup
    obtain ⟨hallowedRest, hallowedField⟩ := hallowed.cons
    -- a struct value that breaks a later field breaks the whole
    have hlater : castableFields rest ss = false → ∃ values,
        List.Forall₂ (fun field v => Fits field.2 v) ss values ∧
          FieldsMiss (castStructFields ss (Series.fieldsAsSeries (canonicalFields ss) [.struct values]) 1
            ((name, t) :: rest)) ((name, t) :: rest) := by
      intro hrest
      obtain ⟨values, hfits, hmiss⟩ := castStructFields_misses ss rest hallowedRest hnodupRest hrest
      refine ⟨values, hfits, fun fields hfields heq => ?_⟩
      rw [castStructFields] at hfields
      obtain ⟨casted, -, hcasted⟩ := Except.bind_eq_ok.mp hfields
      obtain ⟨others, hothers, hcons⟩ := Except.bind_eq_ok.mp hcasted
      cases hcons
      exact hmiss others hothers (List.cons.inj heq).2
    have hparts := hcast
    rw [castableFields] at hparts
    cases hget : mapGet ss name with
    | none =>
      rw [hget] at hparts
      cases hnullable : Series.nullable (canonicalPolarsType t) with
      | true =>
        simp only [hnullable, Bool.true_and] at hparts
        exact hlater hparts
      | false =>
        have hnulls : List.Forall₂ (fun (field : String × DataType) v => Fits field.2 v) ss
            (ss.map (fun _ => Value.null)) := by
          rw [List.forall₂_map_right_iff, List.forall₂_same]
          exact fun field _ => Fits.null _
        refine ⟨_, hnulls, fun fields hfields _ => ?_⟩
        have hall : ∀ v ∈ [Value.struct (ss.map (fun _ => .null))], Fits (.structType ss) v :=
          fun v hv => List.mem_singleton.mp hv ▸ Fits.struct hnulls
        have hnone := fieldsAsSeries_column ss _ hall name
        rw [hget] at hnone
        rw [castStructFields, castStructField, hnone] at hfields
        simp only [Series.fullNull, hnullable, Bool.false_eq_true, if_false] at hfields
        cases hfields
    | some srcType =>
      rw [hget] at hparts
      simp only at hparts
      cases hfield : castable t srcType with
      | true =>
        rw [hfield, Bool.true_and] at hparts
        exact hlater hparts
      | false =>
        obtain ⟨v, hfits, hmisses⟩ := castSeries_misses srcType t (hallowedField hnot srcType hget) hfield
        obtain ⟨values, hvalues, hseries⟩ := exists_struct_value hget hfits
        refine ⟨values, hvalues, fun fields hfields heq => ?_⟩
        have hne : srcType ≠ t := by
          rintro rfl
          rw [castable_self] at hfield
          cases hfield
        rw [castStructFields, castStructField, hseries, hget] at hfields
        simp only [hne, if_false] at hfields
        obtain ⟨casted, hcasted, hothers⟩ := Except.bind_eq_ok.mp hfields
        obtain ⟨others, -, hcons⟩ := Except.bind_eq_ok.mp hothers
        cases hcons
        exact hmisses casted hcasted (Prod.mk.inj (List.cons.inj heq).1).2
  termination_by (weightFields ds, 0)
  decreasing_by all_goals (simp only [weightFields, Prod.lex_def]; omega)

end

/-! ## The agreement -/

/-- **A cast that the planner lets through is sound, for every column, exactly when it is castable.** -/
theorem castsSoundly_iff (src dst : DataType) (hallowed : Allowed src dst) :
    CastsSoundly src dst ↔ castable dst src = true := by
  constructor
  · intro hsound
    by_contra hcast
    obtain ⟨v, hfits, hmisses⟩ := castSeries_misses src dst hallowed (by simpa using hcast)
    have hall : ∀ v' ∈ [v], Fits src v' := fun v' hv' => List.mem_singleton.mp hv' ▸ hfits
    obtain ⟨result, hresult, hdtype, -⟩ := hsound ⟨⟨canonicalPolarsType src, [v]⟩, rfl, hall⟩
    exact hmisses result hresult hdtype
  · intro hcast column
    exact castSeries_ok src dst hallowed hcast column.series ⟨column.dtype_eq, column.fits⟩

end

/-! ### Integers and embeddings as texts -/

/-- An engine whose integers print in decimal, and whose other scalars convert to null. -/
instance decimalEngine : Engine where
  fromStr := fun s => if s = "null" then some .null else none
  temporalChunks := .physical
  supports := fun src dst => src.isScalar && dst.isScalar
  convert := fun src dst v =>
    match src, dst, v with
    | .int64, .string, .int i => .text (.raw (toString i.toInt))
    | _, _, _ => .null
  supports_scalar := fun src dst hsrc hdst _ _ _ => by rw [hsrc, hdst]; rfl

theorem integer_string_castsSoundly_iff :
    CastsSoundly .integerType .stringType ↔ castable .stringType .integerType = true :=
  castsSoundly_iff .integerType .stringType ⟨.bool true, by rw [canCast.eq_def]; rfl, rfl⟩

/-- **The planner returns an error object for an embedding instead of raising it**, and takes the object for a
    yes. The plugin then ends the process. -/
theorem embedding_string_unsound :
    Allowed (.embeddingType 2 "model") .stringType ∧
      ¬ CastsSoundly (.embeddingType 2 "model") .stringType := by
  refine ⟨⟨_, by rw [canCast.eq_def]; rfl, rfl⟩, fun hsound => ?_⟩
  have hnull : ∀ v ∈ [Value.null], Fits (.embeddingType 2 "model") v :=
    fun v hv => List.mem_singleton.mp hv ▸ Fits.null _
  obtain ⟨result, hresult, -⟩ := hsound ⟨⟨.array .float32 2, [.null]⟩, rfl, hnull⟩
  obtain ⟨message, htodo⟩ : ∃ message,
      castSeries (.embeddingType 2 "model") .stringType ⟨.array .float32 2, [.null]⟩ =
        .error (.todo message) :=
    castSeries_embedding rfl (by simp) (by simp) (by simp) (by simp)
  rw [htodo] at hresult
  cases hresult

end Dtypes

end Fenic
