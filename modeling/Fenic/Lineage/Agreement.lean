import Fenic.Lineage.Mirror

/-!
# `Lineage.Agreement` — the lineage graph and the executed plan

Every operator is implemented twice: `execute_node` computes its rows, and `build_node_lineage` computes them
again with their ids. The two agree for every operator that treats the row id column as a passenger. Five do
not always: an in-memory source skips its coercions, a cached frame may not be there yet, a projection of
literals only gets as many rows as its child, an explode takes its column from the child instead of computing
it, and distinct rows are compared with their ids. `Plan.faithful` excludes these five.
-/

namespace Fenic

namespace Lineage

variable {V : Type}

/-! ## The operators that agree -/

def UnaryExec.faithful : UnaryExec V → Bool
  | projection projections => projections.any (fun p => (p.length? 0).isSome)
  | explode physicalExpr colName _ => physicalExpr.isColumn && physicalExpr.name == colName
  | dropDuplicates subset => 0 < subset.length
  | _ => true

/-- No operator of the plan is one of the five, with the store as it is. -/
def Plan.faithful (store : Store V) : Plan V → Bool
  | inMemorySource source => source.df.columns.all (fun column => (source.coercion? column).isNone)
  | scan _ _ => true
  | cacheRead cacheKey => (store cacheKey).isSome
  | unary op _ child => op.faithful && child.faithful store
  | binary _ _ left right => left.faithful store && right.faithful store

section

variable {lo supply : Nat} {E L E' : Frame V}

/-! ## Unary operators -/

/-- An operator of the row subset kind. -/
theorem keepIds_mirrors [ColumnValue V] [DecidableEq V] {op : UnaryExec V} (hlineage : op.lineage supply L = (op.executeNode L).map (keepIds supply))
    (h : ∃ L', op.executeNode L = some L' ∧ Mirrors E' L') :
    ∃ step, op.lineage supply L = some step ∧ Mirrors E' step.df := by
  obtain ⟨L', hL', hmirrors⟩ := h
  exact ⟨keepIds supply L', by rw [hlineage, hL', Option.map_some], hmirrors⟩

/-- New ids for the rows. -/
theorem expandIds_mirrors (supply : Nat) (h : Mirrors E' L) (hasId : "_uuid" ∈ L.columns) :
    ∃ step, expandIds supply L = some step ∧ Mirrors E' step.df := by
  obtain ⟨renewed, hrenewed⟩ := Mirrors.renewIds_isSome hasId supply
  have hback : "_backwards_uuid" ∈ rowIdColumns := by decide
  exact ⟨_, by rw [expandIds, hrenewed, Option.map_some], (h.renewIds hrenewed).dropRowId hback⟩

/-! ### Projections -/

variable {projections : List (Projection V)}

/-- The height of a selection whose long columns are as long as the frame. -/
theorem selectHeight_eq {height : Nat}
    (hlong : ∃ p ∈ projections, (p.length? height).isSome)
    (hfits : ∀ p ∈ projections, ∀ n, p.length? height = some n → n = height) :
    Frame.selectHeight projections height = some height := by
  have hall : ∀ n ∈ projections.filterMap (Projection.length? height), n = height := by
    intro n hn
    obtain ⟨p, hp, heq⟩ := List.mem_filterMap.mp hn
    exact hfits p hp n heq
  unfold Frame.selectHeight
  split
  · rename_i hnil
    obtain ⟨p, hp, hsome⟩ := hlong
    obtain ⟨n, hn⟩ := Option.isSome_iff_exists.mp hsome
    have hmem : n ∈ projections.filterMap (Projection.length? height) := List.mem_filterMap.mpr ⟨p, hp, hn⟩
    rw [hnil] at hmem
    cases hmem
  · rename_i n ns hcons
    rw [hcons] at hall
    have hn : n = height := hall n List.mem_cons_self
    rw [if_pos (fun m hm => (hall m (List.mem_cons_of_mem _ hm)).trans hn.symm), hn]

theorem length?_isSome (p : Projection V) (height height' : Nat) :
    (p.length? height).isSome = (p.length? height').isSome := by
  cases p <;> rfl

/-- A projection computes the same cell on both sides. -/
theorem cellAt_eq (h : Mirrors E L) {p : Projection V} (hroots : p.roots ⊆ E.columns) (i : Nat) :
    p.cellAt L.rows i = p.cellAt E.rows i := by
  cases p with
  | row e => exact h.elim_eq (fun r l hrow => Mirrors.eval_eq hroots hrow) i
  | reduce e => exact e.reads _ _ (h.rows.imp (fun _ _ hrow => hrow.mono hroots))
  | series name values long => rfl

variable {name : String}

/-- The named cells of a selection do not change when a column is selected beside them. -/
theorem rowAt_eq (h : Mirrors E L)
    (hroots : ∀ p ∈ projections, p.roots ⊆ E.columns) (extra : Projection V) (i : Nat)
    (hname : name ∈ projections.map Projection.name) :
    Projection.rowAt (projections ++ [extra]) L.rows i name = Projection.rowAt projections E.rows i name := by
  unfold Projection.rowAt
  rw [List.find?_append]
  cases hfind : projections.find? (fun p => p.name == name) with
  | none =>
    obtain ⟨p, hp, rfl⟩ := List.mem_map.mp hname
    exact absurd (beq_self_eq_true p.name) (List.find?_eq_none.mp hfind p hp)
  | some p =>
    exact cellAt_eq h (hroots p (List.mem_of_find?_eq_some hfind)) i

/-- Selecting the projections and the row ids: the selected data beside the ids. -/
theorem select_mirrors (h : Mirrors E L) (hasId : "_uuid" ∈ L.columns)
    (hclear : ClearOfIds (projections.map Projection.name)) (hnodup : (projections.map Projection.name).Nodup)
    (hroots : ∀ p ∈ projections, p.roots ⊆ E.columns)
    (hfits : ∀ p ∈ projections, ∀ n, p.length? E.rows.length = some n → n = E.rows.length) :
    ∃ L', L.select (projections ++ [.row (.column "_uuid")]) = some L' ∧
      Mirrors ⟨projections.map Projection.name,
        (List.range E.rows.length).map (Projection.rowAt projections E.rows)⟩ L' := by
  have hrootsL : ∀ p ∈ projections ++ [Projection.row (.column "_uuid")], p.roots ⊆ L.columns := by
    intro p hp
    rcases List.mem_append.mp hp with hp | hp
    · exact h.subset (hroots p hp)
    · rw [List.mem_singleton.mp hp]
      intro c hc
      rw [List.mem_singleton.mp hc]
      exact hasId
  have hheight : Frame.selectHeight (projections ++ [.row (.column "_uuid")]) L.rows.length =
      some E.rows.length := by
    rw [h.length_eq]
    refine selectHeight_eq ⟨_, List.mem_append_right _ (List.mem_singleton.mpr rfl), rfl⟩ (fun p hp n hn => ?_)
    rcases List.mem_append.mp hp with hp | hp
    · exact hfits p hp n hn
    · rw [List.mem_singleton.mp hp] at hn
      exact (Option.some.inj hn).symm
  have hnames : (projections ++ [Projection.row (.column "_uuid")]).map Projection.name =
      projections.map Projection.name ++ ["_uuid"] := by
    rw [List.map_append]
    rfl
  have hnodupL : (projections.map Projection.name ++ ["_uuid"]).Nodup := by
    refine List.nodup_append.mpr ⟨hnodup, List.nodup_singleton _, fun c hc c' hc' => ?_⟩
    rw [List.mem_singleton.mp hc']
    exact hclear.ne hc "_uuid" (by decide)
  refine ⟨_, by rw [Frame.select, if_pos hrootsL, hheight, Option.bind_some, Frame.checkNames, hnames,
    if_pos hnodupL], ?_, ?_, hnodupL⟩
  · rw [userColumns_append, userColumns_of_clear hclear]
    simp [userColumns, rowIdColumns]
  · rw [List.forall₂_map_left_iff, List.forall₂_map_right_iff, List.forall₂_same]
    exact fun i _ name hname => rowAt_eq h hroots _ i hname

variable {f : Frame V}

/-- An identity projection selects what the frame has. -/
theorem identity_agrees
    (h : isIdentityProjection projections f.columns = true) :
    projections = f.columns.map (fun c => .row (.column c)) := by
  obtain ⟨hlength, hall⟩ := (Bool.and_eq_true _ _).mp h
  have hlength' : projections.length = f.columns.length := by simpa using hlength
  refine List.ext_getElem (by simpa using hlength') (fun i hi hi' => ?_)
  have hzip : i < (projections.zip f.columns).length := by
    rw [List.length_zip]
    omega
  have hmem : (projections[i], f.columns[i]) ∈ projections.zip f.columns := by
    rw [← List.getElem_zip (h := hzip)]
    exact List.getElem_mem _
  have hpair := List.all_eq_true.mp hall _ hmem
  rw [List.getElem_map]
  revert hpair
  cases projections[i] with
  | row e =>
    cases e with
    | column name =>
      intro hpair
      have hname : name = f.columns[i] := by simpa [RowExpr.isColumn, RowExpr.name] using hpair
      rw [hname]
    | computed name roots eval reads => simp [RowExpr.isColumn]
  | reduce e => simp
  | series name values long => simp

/-- Its rows are those of the frame, as far as the columns go. -/
theorem rowAt_identity
    (h : projections = f.columns.map (fun c => .row (.column c))) {i : Nat} (hi : i < f.rows.length)
    (hname : name ∈ f.columns) :
    Projection.rowAt projections f.rows i name = f.rows[i] name := by
  unfold Projection.rowAt
  cases hfind : projections.find? (fun p => p.name == name) with
  | none =>
    have hp : Projection.row (.column name) ∈ projections := h ▸ List.mem_map_of_mem hname
    exact absurd (beq_self_eq_true name) (List.find?_eq_none.mp hfind _ hp)
  | some p =>
    have hp := List.mem_of_find?_eq_some hfind
    have heq : p.name = name := by simpa using List.find?_some hfind
    rw [h] at hp
    obtain ⟨c, -, rfl⟩ := List.mem_map.mp hp
    have hc : c = name := heq
    simp only [Option.map_some, Option.getD_some, Projection.cellAt, List.getElem?_eq_getElem hi,
      Option.elim_some, RowExpr.eval, hc]

theorem projection_mirrors [ColumnValue V] [DecidableEq V] {projections : List (Projection V)} (h : Mirrors E L)
    (hasId : "_uuid" ∈ L.columns) (hclear : ClearOfIds (projections.map Projection.name))
    (hfaithful : projections.any (fun p => (p.length? 0).isSome) = true)
    (hE : ProjectionExec.executeNode projections E = some E') :
    ∃ step, (UnaryExec.projection projections).lineage supply L = some step ∧ Mirrors E' step.df := by
  unfold ProjectionExec.executeNode at hE
  split at hE
  · rename_i hchecks
    have hfits : ∀ p ∈ projections, ∀ n, p.length? E.rows.length = some n → n = E.rows.length := by
      intro p hp n hn
      have hcheck := List.all_eq_true.mp hchecks p hp
      cases p with
      | row e => exact (Option.some.inj hn).symm
      | reduce e => cases hn
      | series name values long =>
        cases hn
        simpa using hcheck
    split at hE
    · -- the projection of every column returns the frame itself
      rename_i hidentity
      cases hE
      have hcolumns := identity_agrees hidentity
      have hnames : projections.map Projection.name = E.columns := by
        rw [hcolumns, List.map_map]
        exact List.map_id _
      have hnodup : E.columns.Nodup := h.columns ▸ h.nodup.filter _
      have hroots : ∀ p ∈ projections, p.roots ⊆ E.columns := by
        intro p hp c hc
        rw [hcolumns] at hp
        obtain ⟨c', hc', rfl⟩ := List.mem_map.mp hp
        rw [List.mem_singleton.mp hc]
        exact hc'
      obtain ⟨L', hL', hmirrors⟩ := select_mirrors h hasId hclear (hnames ▸ hnodup) hroots hfits
      refine ⟨keepIds supply L', by rw [UnaryExec.lineage, hL', Option.map_some], ?_⟩
      rw [hnames] at hmirrors
      refine ⟨hmirrors.columns, ?_, hmirrors.nodup⟩
      have hrows := hmirrors.rows
      rw [List.forall₂_iff_get] at hrows ⊢
      simp only [List.length_map, List.length_range] at hrows
      refine ⟨hrows.1, fun i hi hi' name hname => ?_⟩
      refine (hrows.2 i hi hi' name hname).trans ?_
      simp only [List.get_eq_getElem, List.getElem_map, List.getElem_range]
      exact rowAt_identity hcolumns hi hname
    · unfold Frame.select at hE
      split at hE
      · rename_i hroots
        have hlong : ∃ p ∈ projections, (p.length? E.rows.length).isSome := by
          obtain ⟨p, hp, hsome⟩ := List.any_eq_true.mp hfaithful
          exact ⟨p, hp, length?_isSome p 0 _ ▸ hsome⟩
        rw [selectHeight_eq hlong hfits, Option.bind_some, Frame.checkNames] at hE
        split at hE
        · rename_i hnodup
          cases hE
          obtain ⟨L', hL', hmirrors⟩ := select_mirrors h hasId hclear hnodup hroots hfits
          exact ⟨keepIds supply L', by rw [UnaryExec.lineage, hL', Option.map_some], hmirrors⟩
        · cases hE
      · cases hE
  · cases hE

/-! ### Explodes -/

variable {colName : String} {keepNullAndEmpty : Bool}

theorem explodePart_mirrors [ColumnValue V] (h : Mirrors E L)
    (hE : ExplodeExec.explode colName keepNullAndEmpty E = some E') :
    ∃ L', ExplodeExec.explode colName keepNullAndEmpty L = some L' ∧ Mirrors E' L' ∧ L'.columns = L.columns := by
  obtain ⟨exploded, hexploded, rfl⟩ := Option.map_eq_some_iff.mp hE
  obtain ⟨hcolumns, hmem⟩ := Mirrors.explode_columns hexploded
  obtain ⟨L', hL', hmirrors⟩ := h.explode hexploded
  have hcolumnsL := (Mirrors.explode_columns hL').1
  refine ⟨_, by rw [ExplodeExec.explode, hL', Option.map_some], ?_, ?_⟩
  · split
    · exact hmirrors
    · exact hmirrors.dropNulls (hcolumns ▸ hmem)
  · split
    · exact hcolumnsL
    · exact hcolumnsL

variable {f' : Frame V}

omit supply in
/-- A column set to itself changes no cell. -/
theorem withColumn_self (h : f.withColumn (.column name) = some f') : f' = f := by
  unfold Frame.withColumn at h
  split at h
  · rename_i hroots
    cases h
    have hmem : name ∈ f.columns := hroots (List.mem_singleton.mpr rfl)
    have hrows : f.rows.map (fun r => Function.update r (RowExpr.column name : RowExpr V).name
        ((RowExpr.column name).eval r)) = f.rows := by
      refine (List.map_congr_left (fun r _ => ?_)).trans (List.map_id _)
      exact Function.update_eq_self name r
    rw [hrows, RowExpr.name, Frame.withName, if_pos hmem]
  · cases h

theorem explode_mirrors [ColumnValue V] [DecidableEq V] {physicalExpr : RowExpr V}
    (h : Mirrors E L) (hasId : "_uuid" ∈ L.columns)
    (hfaithful : (physicalExpr.isColumn && physicalExpr.name == colName) = true)
    (hE : ExplodeExec.executeNode physicalExpr colName keepNullAndEmpty E = some E') :
    ∃ step, (UnaryExec.explode physicalExpr colName keepNullAndEmpty).lineage supply L = some step ∧
      Mirrors E' step.df := by
  obtain ⟨withCol, hwithCol, hexplode⟩ := Option.bind_eq_some_iff.mp hE
  cases physicalExpr with
  | computed name roots eval reads => simp [RowExpr.isColumn] at hfaithful
  | column name =>
    have hself : withCol = E := withColumn_self hwithCol
    subst hself
    obtain ⟨L', hL', hmirrors, hcolumns⟩ := explodePart_mirrors h hexplode
    obtain ⟨step, hstep, hmirrors'⟩ := expandIds_mirrors supply hmirrors (hcolumns ▸ hasId)
    exact ⟨step, by rw [UnaryExec.lineage, hL', Option.bind_some, hstep], hmirrors'⟩

theorem withColumn_hasId {e : RowExpr V} (hasId : "_uuid" ∈ f.columns)
    (h : f.withColumn e = some f') : "_uuid" ∈ f'.columns := by
  unfold Frame.withColumn at h
  split at h
  · cases h
    exact mem_withName.mpr (Or.inl hasId)
  · cases h

theorem rename_hasId {old new : String} (hasId : "_uuid" ∈ f.columns) (hne : "_uuid" ≠ old)
    (h : f.rename old new = some f') : "_uuid" ∈ f'.columns := by
  unfold Frame.rename at h
  split at h
  · cases h
    exact List.mem_map.mpr ⟨"_uuid", hasId, if_neg hne⟩
  · cases h

/-- The end of an explode with index: nulls are dropped, and the column gets its name. -/
theorem explodedNamed_mirrors (h : Mirrors E L) {valueName : String}
    (hcol : colName ∈ E.columns) (hold : colName ∉ rowIdColumns) (hnew : valueName ∉ rowIdColumns)
    (hasId : "_uuid" ∈ L.columns)
    (hE : (if valueName ≠ colName then
        (if keepNullAndEmpty = true then E else E.dropNulls colName).rename colName valueName
      else some (if keepNullAndEmpty = true then E else E.dropNulls colName)) = some E') :
    ∃ L', (if valueName ≠ colName then
        (if keepNullAndEmpty = true then L else L.dropNulls colName).rename colName valueName
      else some (if keepNullAndEmpty = true then L else L.dropNulls colName)) = some L' ∧
      Mirrors E' L' ∧ "_uuid" ∈ L'.columns := by
  have hkept : Mirrors (if keepNullAndEmpty = true then E else E.dropNulls colName)
      (if keepNullAndEmpty = true then L else L.dropNulls colName) := by
    split
    · exact h
    · exact h.dropNulls hcol
  have hasIdKept : "_uuid" ∈ (if keepNullAndEmpty = true then L else L.dropNulls colName).columns := by
    split
    · exact hasId
    · exact hasId
  split at hE
  · rename_i hvalue
    rw [if_pos hvalue]
    obtain ⟨L', hL', hmirrors⟩ := hkept.rename hold hnew hE
    have hne : "_uuid" ≠ colName := by
      rintro rfl
      exact hold (by decide)
    exact ⟨L', hL', hmirrors, rename_hasId hasIdKept hne hL'⟩
  · rename_i hvalue
    rw [if_neg hvalue]
    cases hE
    exact ⟨_, rfl, hkept, hasIdKept⟩

theorem explodeWithIndex_mirrors [ColumnValue V] [DecidableEq V] {physicalExpr : RowExpr V}
    {indexName valueName : String} (h : Mirrors E L)
    (hasId : "_uuid" ∈ L.columns) (hclear : ClearOfIds [physicalExpr.name, colName, indexName, valueName])
    (hE : ExplodeWithIndexExec.executeNode physicalExpr colName indexName valueName keepNullAndEmpty E = some E') :
    ∃ step, (UnaryExec.explodeWithIndex physicalExpr colName indexName valueName keepNullAndEmpty).lineage supply L =
      some step ∧ Mirrors E' step.df := by
  have hname : ∀ name ∈ [physicalExpr.name, colName, indexName, valueName], name ∉ rowIdColumns := hclear
  obtain ⟨withList, hwithList, hexplode⟩ := Option.bind_eq_some_iff.mp hE
  obtain ⟨listL, hlistL, hlist⟩ := h.withColumn (hname _ (by simp)) hwithList
  have hasIdList := withColumn_hasId hasId hlistL
  suffices hsuff : ∃ L', ExplodeWithIndexExec.executeNode physicalExpr colName indexName valueName keepNullAndEmpty L =
      some L' ∧ Mirrors E' L' ∧ "_uuid" ∈ L'.columns by
    obtain ⟨L', hL', hmirrors, hasId'⟩ := hsuff
    obtain ⟨step, hstep, hmirrors'⟩ := expandIds_mirrors supply hmirrors hasId'
    exact ⟨step, by rw [UnaryExec.lineage, hL', Option.bind_some, hstep], hmirrors'⟩
  split at hexplode
  · rename_i hcol
    have hcolL : colName ∈ listL.columns ∧ indexName ≠ colName := ⟨(hlist.mem_iff.mp hcol.1).1, hcol.2⟩
    unfold ExplodeWithIndexExec.executeNode
    rw [hlistL, Option.bind_some, if_pos hcolL]
    -- the rows of both sides explode in the same way
    have hexploded : Mirrors
        ⟨Frame.withName withList.columns indexName, withList.rows.flatMap (fun r =>
          (explodeCellWithIndex (r colName)).map (fun pair =>
            Function.update (Function.update r indexName pair.2) colName pair.1))⟩
        ⟨Frame.withName listL.columns indexName, listL.rows.flatMap (fun r =>
          (explodeCellWithIndex (r colName)).map (fun pair =>
            Function.update (Function.update r indexName pair.2) colName pair.1))⟩ := by
      refine ⟨?_, ?_, nodup_withName _ hlist.nodup⟩
      · rw [userColumns_withName (hname indexName (by simp)), hlist.columns]
      · refine List.rel_flatMap hlist.rows (fun r l hrow => ?_)
        rw [hrow colName hcol.1, List.forall₂_map_left_iff, List.forall₂_map_right_iff, List.forall₂_same]
        exact fun pair _ => Mirrors.agrees_update_mem (Mirrors.agrees_update_both hrow indexName pair.2) colName pair.1
    have hcolName : colName ∈ Frame.withName withList.columns indexName := mem_withName.mpr (Or.inl hcol.1)
    have hasIdName : "_uuid" ∈ Frame.withName listL.columns indexName := mem_withName.mpr (Or.inl hasIdList)
    exact explodedNamed_mirrors hexploded hcolName (hname colName (by simp)) (hname valueName (by simp)) hasIdName
      hexplode
  · cases hexplode

/-! ### Row subsets, structs and clusters -/

theorem unnest_mirrors [ColumnValue V] {structs : List (String × List String)} (h : Mirrors E L)
    (hclear : ClearOfIds (structs.map Prod.fst ++ structs.flatMap Prod.snd))
    (hE : UnnestExec.executeNode structs E = some E') :
    ∃ L', UnnestExec.executeNode structs L = some L' ∧ Mirrors E' L' := by
  unfold UnnestExec.executeNode Frame.checkNames at hE
  split at hE
  · rename_i hmem
    split at hE
    · rename_i hnodup
      cases hE
      have hlookupId : ∀ c ∈ rowIdColumns, structs.lookup c = none := by
        intro c hc
        cases hlookup : structs.lookup c with
        | none => rfl
        | some fields => exact absurd hc (hclear.left c (List.mem_map_of_mem (Rows.mem_of_lookup hlookup)))
      have hfields : ∀ c fields, structs.lookup c = some fields → ClearOfIds fields := by
        intro c fields hlookup c' hc'
        exact hclear.right c' (List.mem_flatMap.mpr ⟨_, Rows.mem_of_lookup hlookup, hc'⟩)
      have hparts : ∀ columns : List String,
          userColumns (columns.flatMap (fun c => (structs.lookup c).getD [c])) =
              (userColumns columns).flatMap (fun c => (structs.lookup c).getD [c]) ∧
            (columns.flatMap (fun c => (structs.lookup c).getD [c])).filter (fun c => !decide (c ∉ rowIdColumns)) =
              columns.filter (fun c => !decide (c ∉ rowIdColumns)) := by
        intro columns
        induction columns with
        | nil => exact ⟨rfl, rfl⟩
        | cons c columns ih =>
          by_cases hc : c ∈ rowIdColumns
          · simp only [userColumns] at ih ⊢
            simp only [List.flatMap_cons, hlookupId c hc, Option.getD_none, ih, List.filter_cons, hc,
              not_true_eq_false, decide_false, Bool.false_eq_true, if_false, Bool.not_false, if_true,
              List.singleton_append, and_self]
          · have hclearC : ClearOfIds ((structs.lookup c).getD [c]) := by
              cases hlookup : structs.lookup c with
              | none => simpa [ClearOfIds] using hc
              | some fields => exact hfields c fields hlookup
            have hnone : ((structs.lookup c).getD [c]).filter (fun c => !decide (c ∉ rowIdColumns)) = [] :=
              List.filter_eq_nil_iff.mpr (fun c' hc' => by simpa using hclearC c' hc')
            constructor
            · rw [List.flatMap_cons, userColumns_append, userColumns_of_clear hclearC, ih.1]
              simp [userColumns, hc]
            · rw [List.flatMap_cons, List.filter_append, hnone, ih.2]
              simp [hc]
      have hcolumns : userColumns (L.columns.flatMap (fun c => (structs.lookup c).getD [c])) =
          E.columns.flatMap (fun c => (structs.lookup c).getD [c]) := by
        rw [(hparts L.columns).1, h.columns]
      have hnodupL : (L.columns.flatMap (fun c => (structs.lookup c).getD [c])).Nodup := by
        refine nodup_of_parts (hcolumns ▸ hnodup) ?_
        rw [(hparts L.columns).2]
        exact h.nodup.filter _
      refine ⟨_, by rw [UnnestExec.executeNode, if_pos (h.subset hmem), Frame.checkNames, if_pos hnodupL],
        h.mapRows hcolumns hnodupL (fun r l hrow name hname => ?_)⟩
      unfold unnestRow
      split
      · rename_i colName fields hfind
        have hin : colName ∈ E.columns := hmem (List.mem_map_of_mem (List.mem_of_find?_eq_some hfind))
        rw [hrow colName hin]
      · rename_i hfind
        -- the name is no field, so it is a column that stayed
        obtain ⟨c, hc, hcname⟩ := List.mem_flatMap.mp hname
        cases hlookup : structs.lookup c with
        | none =>
          rw [hlookup, Option.getD_none, List.mem_singleton] at hcname
          exact hcname ▸ hrow c hc
        | some fields =>
          rw [hlookup, Option.getD_some] at hcname
          have hcontains := List.find?_eq_none.mp hfind _ (Rows.mem_of_lookup hlookup)
          simp [hcname] at hcontains
    · cases hE
  · cases hE

theorem semanticCluster_mirrors {byExpr : RowExpr V} {byExprName labelColumn : String}
    {cluster : List (Cell V) → List (Option V)}
    {centroids : Option (String × (List (Cell V) → List (Option V)))} (h : Mirrors E L)
    (hclear : ClearOfIds (byExprName :: labelColumn :: (centroids.map Prod.fst).toList))
    (hE : SemanticClusterExec.executeNode byExpr byExprName labelColumn cluster centroids E = some E') :
    ∃ L', SemanticClusterExec.executeNode byExpr byExprName labelColumn cluster centroids L = some L' ∧
      Mirrors E' L' := by
  have hby : byExprName ∉ rowIdColumns := hclear byExprName List.mem_cons_self
  obtain ⟨withKey, hwithKey, hrest⟩ := Option.bind_eq_some_iff.mp hE
  obtain ⟨labelled, hlabelled, hrest⟩ := Option.bind_eq_some_iff.mp hrest
  obtain ⟨clustered, hclustered, rfl⟩ := Option.map_eq_some_iff.mp hrest
  obtain ⟨keyL, hkeyL, hkey⟩ := h.withColumn (e := byExpr.alias byExprName) hby hwithKey
  have hembeddings : keyL.rows.map (fun r => r byExprName) = withKey.rows.map (fun r => r byExprName) := by
    have hmem : byExprName ∈ withKey.columns := by
      unfold Frame.withColumn at hwithKey
      split at hwithKey
      · cases hwithKey
        exact mem_withName.mpr (Or.inr rfl)
      · cases hwithKey
    exact Rows.map_eq_of_forall₂ (fun r l hrow => hrow byExprName hmem) hkey.rows
  obtain ⟨labelledL, hlabelledL, hlabel⟩ :=
    hkey.withSeries (hclear labelColumn (List.mem_cons_of_mem _ List.mem_cons_self)) hlabelled
  have hin : byExprName ∈ L.columns ↔ byExprName ∈ E.columns := by
    rw [h.mem_iff]
    exact ⟨fun hmem => ⟨hmem, hby⟩, fun hmem => hmem.1⟩
  have hdrop : ∀ {clusteredL : Frame V}, Mirrors clustered clusteredL →
      Mirrors (if byExprName ∈ E.columns then clustered else clustered.drop byExprName)
        (if byExprName ∈ L.columns then clusteredL else clusteredL.drop byExprName) := by
    intro clusteredL hmirrors
    simp only [hin]
    split
    · exact hmirrors
    · exact hmirrors.drop byExprName
  rw [SemanticClusterExec.executeNode, hkeyL, Option.bind_some]
  simp only [hembeddings, hlabelledL, Option.bind_some]
  cases centroids with
  | none =>
    cases hclustered
    exact ⟨_, rfl, hdrop hlabel⟩
  | some centroid =>
    obtain ⟨clusteredL, hclusteredL, hmirrors⟩ := hlabel.withSeries (hclear centroid.1 (by simp)) hclustered
    exact ⟨_, congrArg (Option.map _) hclusteredL, hdrop hmirrors⟩

/-! ### Groups -/

/-- The groups of both sides are the same, and so are their rows. -/
theorem aggregate_eq [DecidableEq V] {groupExprs : List (RowExpr V)} {aggExprs : List (ReduceExpr V)}
    (h : Mirrors E L) (hE : AggregateExec.executeNode groupExprs aggExprs E = some E') :
    AggregateExec.executeNode groupExprs aggExprs L = some E' ∧ E'.columns.Nodup := by
  unfold AggregateExec.executeNode Frame.checkNames at hE
  split at hE
  · rename_i hroots
    split at hE
    · rename_i hnodup
      cases hE
      refine ⟨?_, hnodup⟩
      have hgroups : List.Forall₂ (fun group groupL => groupL.1 = group.1 ∧
            List.Forall₂ (Agrees E.columns) group.2 groupL.2)
          (Rows.groupsBy (groupKey groupExprs) E.rows) (Rows.groupsBy (groupKey groupExprs) L.rows) :=
        Rows.forall₂_groupsBy (fun r l hrow => Mirrors.map_eval_eq hroots.1 hrow) h.rows
      have hrows : (Rows.groupsBy (groupKey groupExprs) L.rows).map (groupRow groupExprs aggExprs) =
          (Rows.groupsBy (groupKey groupExprs) E.rows).map (groupRow groupExprs aggExprs) := by
        refine Rows.map_eq_of_forall₂ (fun group groupL hgroup => ?_) hgroups
        funext name
        have hagg : ∀ e ∈ aggExprs, e.eval groupL.2 = e.eval group.2 := fun e he =>
          e.reads _ _ (hgroup.2.imp (fun _ _ hrow => hrow.mono (hroots.2 e he)))
        unfold groupRow
        rw [hgroup.1]
        split
        · rfl
        · cases hfind : aggExprs.find? (fun e => e.name == name) with
          | none => rfl
          | some e => exact hagg e (List.mem_of_find?_eq_some hfind)
      have hrootsL : (∀ e ∈ groupExprs, e.roots ⊆ L.columns) ∧ ∀ e ∈ aggExprs, e.roots ⊆ L.columns :=
        ⟨fun e he => h.subset (hroots.1 e he), fun e he => h.subset (hroots.2 e he)⟩
      rw [AggregateExec.executeNode, if_pos hrootsL, Frame.checkNames, if_pos hnodup, hrows]
    · cases hE
  · cases hE

theorem aggregate_mirrors [ColumnValue V] [DecidableEq V] {groupExprs : List (RowExpr V)}
    {aggExprs : List (ReduceExpr V)} (h : Mirrors E L)
    (hclear : ClearOfIds (groupExprs.map RowExpr.name ++ aggExprs.map ReduceExpr.name))
    (hE : AggregateExec.executeNode groupExprs aggExprs E = some E') :
    ∃ step, (UnaryExec.aggregate groupExprs aggExprs).lineage supply L = some step ∧ Mirrors E' step.df := by
  obtain ⟨hL, hnodup⟩ := aggregate_eq h hE
  have hcolumns : E'.columns = groupExprs.map RowExpr.name ++ aggExprs.map ReduceExpr.name := by
    unfold AggregateExec.executeNode Frame.checkNames at hE
    split at hE
    · split at hE
      · cases hE
        rfl
      · cases hE
    · cases hE
  have hclear' : ClearOfIds E'.columns := hcolumns ▸ hclear
  have hback : "_backwards_uuid" ∉ E'.columns := fun hmem => hclear' _ hmem (by decide)
  exact ⟨_, by rw [UnaryExec.lineage, AggregateExec.lineage, hL, Option.bind_some, if_neg hback],
    (Mirrors.self hnodup hclear').withIds supply⟩

/-- **A unary operator on mirrored frames.** -/
theorem unary_mirrors [ColumnValue V] [DecidableEq V] {op : UnaryExec V} (h : Mirrors E L)
    (hasId : "_uuid" ∈ L.columns) (hclear : ClearOfIds op.names) (hfaithful : op.faithful = true)
    (hE : op.executeNode E = some E') :
    ∃ step, op.lineage supply L = some step ∧ Mirrors E' step.df := by
  cases op with
  | projection projections => exact projection_mirrors h hasId hclear hfaithful hE
  | explode physicalExpr colName keepNullAndEmpty => exact explode_mirrors h hasId hfaithful hE
  | explodeWithIndex physicalExpr colName indexName valueName keepNullAndEmpty =>
    exact explodeWithIndex_mirrors h hasId hclear hE
  | aggregate groupExprs aggExprs => exact aggregate_mirrors h hclear hE
  | filter predicate =>
    refine keepIds_mirrors rfl ?_
    simp only [UnaryExec.executeNode, Frame.filter] at hE ⊢
    split at hE
    · rename_i hroots
      cases hE
      rw [if_pos (h.subset hroots)]
      exact ⟨_, rfl, h.filterRows (fun r l hrow => by rw [Mirrors.eval_eq hroots hrow])⟩
    · cases hE
  | limit n =>
    refine keepIds_mirrors rfl ?_
    simp only [UnaryExec.executeNode, LimitExec.executeNode, Option.some.injEq] at hE ⊢
    subst hE
    refine ⟨_, rfl, ?_⟩
    split
    · exact h.withRows (List.forall₂_take n h.rows)
    · exact h.withRows List.Forall₂.nil
  | dropDuplicates subset =>
    refine keepIds_mirrors rfl ?_
    have hsubset : 0 < subset.length := by simpa [UnaryExec.faithful] using hfaithful
    simp only [UnaryExec.executeNode, DropDuplicatesExec.executeNode, if_pos hsubset, Frame.unique,
      Option.getD_some] at hE ⊢
    split at hE
    · rename_i hcolumns
      cases hE
      rw [if_pos (h.subset hcolumns)]
      refine ⟨_, rfl, h.withRows (Rows.forall₂_uniqueBy (fun r l hrow => ?_) h.rows)⟩
      exact List.map_congr_left (fun name hname => hrow name (hcolumns hname))
    · cases hE
  | sort cols order =>
    refine keepIds_mirrors rfl ?_
    simp only [UnaryExec.executeNode, SortExec.executeNode] at hE ⊢
    split at hE
    · rename_i hroots
      cases hE
      have hkeys : L.rows.map (fun r => cols.map (fun e => e.eval r)) =
          E.rows.map (fun r => cols.map (fun e => e.eval r)) :=
        Rows.map_eq_of_forall₂ (fun r l hrow => Mirrors.map_eval_eq hroots hrow) h.rows
      rw [if_pos (fun e he => h.subset (hroots e he)), hkeys]
      exact ⟨_, rfl, h.withRows (Rows.forall₂_pick _ h.rows)⟩
    · cases hE
  | unnest structs => exact keepIds_mirrors rfl (unnest_mirrors h hclear hE)
  | semanticCluster byExpr byExprName labelColumn cluster centroids =>
    exact keepIds_mirrors rfl (semanticCluster_mirrors h hclear hE)

/-! ## Binary operators -/

variable {E₁ L₁ E₂ L₂ : Frame V}

theorem union_mirrors (h₁ : Mirrors E₁ L₁) (h₂ : Mirrors E₂ L₂) (hasId₁ : "_uuid" ∈ L₁.columns)
    (hasId₂ : "_uuid" ∈ L₂.columns) (hclear : ∀ c ∈ L₁.columns, c ≠ "_uuid" → c ∉ rowIdColumns)
    (hE : UnionExec.executeNode E₁ E₂ = some E') :
    ∃ step, UnionExec.lineage supply L₁ L₂ = some step ∧ Mirrors E' step.df := by
  obtain ⟨leftDf, hleftDf⟩ := Mirrors.renewIds_isSome hasId₁ supply
  obtain ⟨rightDf, hrightDf⟩ := Mirrors.renewIds_isSome hasId₂ (supply + L₁.rows.length)
  have hleft := h₁.renewIds hleftDf
  have hright := h₂.renewIds hrightDf
  have hsub : E₁.columns ⊆ E₂.columns := by
    obtain ⟨aligned, haligned, -⟩ := Option.bind_eq_some_iff.mp hE
    split at haligned
    · rename_i heq
      rw [heq]
      exact List.Subset.refl _
    · unfold Frame.selectColumns at haligned
      split at haligned
      · rename_i hsub
        exact hsub
      · cases haligned
  -- the row id columns of the left side are also on the right side
  have hsubL : leftDf.columns ⊆ rightDf.columns := by
    intro c hc
    by_cases hrowId : c ∈ rowIdColumns
    · have hids : ∀ c', c' = "_uuid" ∨ c' = "_backwards_uuid" → c' ∈ rightDf.columns := by
        rw [renewIds_eq hrightDf]
        rintro c' (rfl | rfl)
        · exact mem_withName.mpr (Or.inr rfl)
        · exact mem_withName.mpr (Or.inl (mem_withName.mpr (Or.inr rfl)))
      rw [renewIds_eq hleftDf] at hc
      rcases mem_withName.mp hc with hc | hc
      · rcases mem_withName.mp hc with hc | hc
        · by_cases huuid : c = "_uuid"
          · exact hids c (Or.inl huuid)
          · exact absurd hrowId (hclear c hc huuid)
        · exact hids c (Or.inr hc)
      · exact hids c (Or.inl hc)
    · exact hright.subset hsub (hleft.mem_iff.mpr ⟨hc, hrowId⟩)
  have hL : ∃ L', UnionExec.executeNode leftDf rightDf = some L' := by
    by_cases heq : rightDf.columns = leftDf.columns
    · exact ⟨_, by rw [UnionExec.executeNode, if_pos heq, Option.bind_some, Frame.concat, if_pos heq]⟩
    · refine ⟨⟨leftDf.columns, leftDf.rows ++ rightDf.rows⟩, ?_⟩
      rw [UnionExec.executeNode, if_neg heq, Frame.selectColumns, if_pos hsubL, Frame.checkNames,
        if_pos hleft.nodup, Option.bind_some, Frame.concat, if_pos rfl]
  obtain ⟨L', hL'⟩ := hL
  obtain ⟨hcolumns, hrows⟩ := union_rows hE
  obtain ⟨hcolumnsL, hrowsL⟩ := union_rows hL'
  have hmirrors : Mirrors E' L' := by
    refine ⟨?_, ?_, hcolumnsL ▸ hleft.nodup⟩
    · rw [hcolumnsL, hleft.columns, hcolumns]
    · rw [hcolumns, hrows, hrowsL]
      exact List.rel_append hleft.rows (hright.rows.imp (fun _ _ hrow => hrow.mono hsub))
  have hback : "_backwards_uuid" ∈ rowIdColumns := by decide
  refine ⟨_, by rw [UnionExec.lineage, hleftDf, Option.bind_some, hrightDf, Option.bind_some, hL',
    Option.map_some], hmirrors.dropRowId hback⟩

/-! ### Joins -/

/-- A frame whose row ids stand in one column. -/
def IdsIn (column : String) (f : Frame V) : Prop :=
  column ∈ rowIdColumns ∧ ∀ c ∈ f.columns, c = column ∨ c ∉ rowIdColumns

variable {op : JoinOp V}

theorem leftNames_user (h : Mirrors E L) :
    userColumns (op.leftNames L) = op.leftNames E := by
  unfold JoinOp.leftNames userColumns
  rw [← h.columns, userColumns, List.filter_filter, List.filter_filter]
  exact List.filter_congr (fun c _ => Bool.and_comm _ _)

variable {c : String}

theorem mem_leftNames (h : Mirrors E L) (hc : c ∉ rowIdColumns) :
    c ∈ op.leftNames L ↔ c ∈ op.leftNames E := by
  rw [← leftNames_user h, mem_userColumns]
  exact ⟨fun hmem => ⟨hmem, hc⟩, fun hmem => hmem.1⟩

/-- The name of a right column in the result. -/
def rightName (op : JoinOp V) (left : Frame V) (c : String) : String :=
  if c ∈ op.leftNames left then c ++ "_right" else c

theorem rightNames_eq (op : JoinOp V) (left right : Frame V) :
    op.rightNames left right =
      (right.columns.filter (fun c => c ∉ op.dropsRight)).map (fun c => (rightName op left c, c)) := rfl

/-- The ids of the right side keep their name, and no other column gets a row id name. -/
theorem rightName_rowId {left : Frame V} {column : String} (hids : IdsIn column left)
    (hne : c ≠ column) : rightName op left c ∈ rowIdColumns ↔ c ∈ rowIdColumns := by
  unfold rightName
  split
  · rename_i hmem
    have hc : c ∉ rowIdColumns := (hids.2 c (List.mem_filter.mp hmem).1).resolve_left hne
    exact iff_of_false (suffix_clear c) hc
  · exact Iff.rfl

theorem rightName_of_rowId {left : Frame V} {column : String} (hids : IdsIn column left)
    (hne : c ≠ column) (hc : c ∈ rowIdColumns) : rightName op left c = c := by
  refine if_neg (fun hmem => ?_)
  exact (hids.2 c (List.mem_filter.mp hmem).1).resolve_left hne hc

variable {left right : String}

/-- The right columns of the data are renamed as without ids. -/
theorem rightNames_user (h₁ : Mirrors E₁ L₁) (h₂ : Mirrors E₂ L₂)
    (hids₁ : IdsIn left L₁) (hids₂ : IdsIn right L₂) (hne : right ≠ left) :
    (op.rightNames L₁ L₂).filter (fun entry => decide (entry.1 ∉ rowIdColumns)) = op.rightNames E₁ E₂ := by
  have hnotLeft : ∀ c ∈ L₂.columns, c ≠ left := by
    rintro c hc rfl
    rcases hids₂.2 c hc with heq | hnot
    · exact hne heq.symm
    · exact hnot hids₁.1
  have hcolumns : (L₂.columns.filter (fun c => decide (c ∉ op.dropsRight))).filter
      (fun c => decide (rightName op L₁ c ∉ rowIdColumns)) =
      E₂.columns.filter (fun c => decide (c ∉ op.dropsRight)) := by
    rw [← h₂.columns, userColumns, List.filter_filter, List.filter_filter]
    refine List.filter_congr (fun c hc => ?_)
    rw [Bool.and_comm]
    simp only [rightName_rowId hids₁ (hnotLeft c hc)]
  rw [rightNames_eq, rightNames_eq, List.filter_map]
  show ((L₂.columns.filter (fun c => decide (c ∉ op.dropsRight))).filter
    (fun c => decide (rightName op L₁ c ∉ rowIdColumns))).map (fun c => (rightName op L₁ c, c)) = _
  rw [hcolumns]
  refine List.map_congr_left (fun c hc => ?_)
  have hclear : c ∉ rowIdColumns := h₂.clear c (List.mem_filter.mp hc).1
  simp only [rightName, mem_leftNames h₁ hclear]

/-- The result of a join has no name twice: its row id columns are those of the two sides. -/
theorem join_nodup (h₁ : Mirrors E₁ L₁) (h₂ : Mirrors E₂ L₂)
    (hids₁ : IdsIn left L₁) (hids₂ : IdsIn right L₂) (hne : right ≠ left)
    (hscore : ClearOfIds op.scoreColumn.toList)
    (hnodup : (userColumns (op.leftNames L₁ ++ (op.rightNames L₁ L₂).map Prod.fst ++ op.scoreColumn.toList)).Nodup) :
    (op.leftNames L₁ ++ (op.rightNames L₁ L₂).map Prod.fst ++ op.scoreColumn.toList).Nodup := by
  refine nodup_of_parts hnodup ?_
  have hscoreIds : op.scoreColumn.toList.filter (fun c => !decide (c ∉ rowIdColumns)) = [] :=
    List.filter_eq_nil_iff.mpr (fun c hc => by simpa using hscore c hc)
  have hnotLeft : ∀ c ∈ L₂.columns, c ≠ left := by
    rintro c hc rfl
    rcases hids₂.2 c hc with heq | hnot
    · exact hne heq.symm
    · exact hnot hids₁.1
  have hrightIds : ((op.rightNames L₁ L₂).map Prod.fst).filter (fun c => !decide (c ∉ rowIdColumns)) =
      (L₂.columns.filter (fun c => decide (c ∉ op.dropsRight))).filter (fun c => !decide (c ∉ rowIdColumns)) := by
    rw [rightNames_eq, List.map_map, List.filter_map]
    have hids : ∀ c ∈ L₂.columns.filter (fun c => decide (c ∉ op.dropsRight)),
        (!decide (rightName op L₁ c ∉ rowIdColumns)) = !decide (c ∉ rowIdColumns) := by
      intro c hc
      simp only [rightName_rowId hids₁ (hnotLeft c (List.mem_filter.mp hc).1)]
    show (List.filter (fun c => !decide (rightName op L₁ c ∉ rowIdColumns)) _).map (rightName op L₁) = _
    rw [List.filter_congr hids]
    refine (List.map_congr_left (fun c hc => ?_)).trans (List.map_id _)
    obtain ⟨hc, hrowId⟩ := List.mem_filter.mp hc
    exact rightName_of_rowId hids₁ (hnotLeft c (List.mem_filter.mp hc).1) (by simpa using hrowId)
  rw [List.filter_append, List.filter_append, hscoreIds, List.append_nil, hrightIds]
  refine List.nodup_append.mpr ⟨(h₁.nodup.filter _).filter _, (h₂.nodup.filter _).filter _, ?_⟩
  intro c hc c' hc' heq
  obtain ⟨hc, hrowId⟩ := List.mem_filter.mp hc
  obtain ⟨hc', -⟩ := List.mem_filter.mp hc'
  have hleft : c = left := (hids₁.2 c (List.mem_filter.mp hc).1).resolve_right (by simpa using hrowId)
  exact hnotLeft c' (List.mem_filter.mp hc').1 (heq ▸ hleft)

/-- The cells of a joined row. -/
theorem joinRow_eq (h₁ : Mirrors E₁ L₁) (h₂ : Mirrors E₂ L₂)
    (hids₁ : IdsIn left L₁) (hids₂ : IdsIn right L₂) (hne : right ≠ left)
    (pair : (Option Nat × Option Nat) × Option V) (hname : name ∉ rowIdColumns) :
    op.joinRow L₁ L₂ pair name = op.joinRow E₁ E₂ pair name := by
  have hcell : ∀ {E L : Frame V}, Mirrors E L → ∀ {c : String}, c ∈ E.columns → ∀ i : Option Nat,
      (i.bind (fun i => L.rows[i]?)).elim Cell.null (fun r => r c) =
        (i.bind (fun i => E.rows[i]?)).elim Cell.null (fun r => r c) := by
    intro E L h c hc i
    cases i with
    | none => rfl
    | some i => exact h.elim_eq (fun r l hrow => hrow c hc) i
  have hlookup : (op.rightNames L₁ L₂).lookup name = (op.rightNames E₁ E₂).lookup name := by
    rw [← rightNames_user h₁ h₂ hids₁ hids₂ hne]
    have hp : decide (name ∉ rowIdColumns) = true := decide_eq_true hname
    exact (Rows.lookup_filter (p := fun c => decide (c ∉ rowIdColumns)) hp _).symm
  unfold JoinOp.joinRow
  by_cases hscore : op.scoreColumn = some name
  · rw [if_pos hscore, if_pos hscore]
  · rw [if_neg hscore, if_neg hscore, hlookup]
    by_cases hleft : name ∈ op.leftNames E₁
    · rw [if_pos hleft, if_pos ((mem_leftNames h₁ hname).mpr hleft)]
      exact hcell h₁ (List.mem_filter.mp hleft).1 pair.1.1
    · rw [if_neg hleft, if_neg (fun hmem => hleft ((mem_leftNames h₁ hname).mp hmem))]
      split
      · rename_i source hsource
        obtain ⟨c, hc, heq⟩ := List.mem_map.mp (Rows.mem_of_lookup hsource)
        have hcsource : c = source := congrArg Prod.snd heq
        exact hcell h₂ (hcsource ▸ (List.mem_filter.mp hc).1) pair.1.2
      · rfl

/-- Joining frames with ids is joining the frames, beside the ids. -/
theorem joined_mirrors (h₁ : Mirrors E₁ L₁) (h₂ : Mirrors E₂ L₂)
    (hids₁ : IdsIn left L₁) (hids₂ : IdsIn right L₂) (hne : right ≠ left)
    (hscore : ClearOfIds op.scoreColumn.toList) (hE : op.executeNode E₁ E₂ = some E') :
    ∃ L', op.executeNode L₁ L₂ = some L' ∧ Mirrors E' L' := by
  unfold JoinOp.executeNode Frame.checkNames at hE
  split at hE
  · rename_i hroots
    split at hE
    · rename_i hnodup
      cases hE
      have hright : userColumns ((op.rightNames L₁ L₂).map Prod.fst) = (op.rightNames E₁ E₂).map Prod.fst := by
        rw [← rightNames_user h₁ h₂ hids₁ hids₂ hne, userColumns, List.filter_map]
        rfl
      have hcolumns : userColumns (op.leftNames L₁ ++ (op.rightNames L₁ L₂).map Prod.fst ++ op.scoreColumn.toList) =
          op.leftNames E₁ ++ (op.rightNames E₁ E₂).map Prod.fst ++ op.scoreColumn.toList := by
        rw [userColumns_append, userColumns_append, leftNames_user h₁, hright, userColumns_of_clear hscore]
      have hnodupL := join_nodup h₁ h₂ hids₁ hids₂ hne hscore (hcolumns ▸ hnodup)
      have hkeys₁ : L₁.rows.map (groupKey op.leftOn) = E₁.rows.map (groupKey op.leftOn) :=
        Rows.map_eq_of_forall₂ (fun r l hrow => Mirrors.map_eval_eq hroots.1 hrow) h₁.rows
      have hkeys₂ : L₂.rows.map (groupKey op.rightOn) = E₂.rows.map (groupKey op.rightOn) :=
        Rows.map_eq_of_forall₂ (fun r l hrow => Mirrors.map_eval_eq hroots.2 hrow) h₂.rows
      have hrootsL : (∀ e ∈ op.leftOn, e.roots ⊆ L₁.columns) ∧ ∀ e ∈ op.rightOn, e.roots ⊆ L₂.columns :=
        ⟨fun e he => h₁.subset (hroots.1 e he), fun e he => h₂.subset (hroots.2 e he)⟩
      refine ⟨_, by rw [JoinOp.executeNode, if_pos hrootsL, Frame.checkNames, if_pos hnodupL, hkeys₁, hkeys₂],
        hcolumns, ?_, hnodupL⟩
      rw [List.forall₂_map_left_iff, List.forall₂_map_right_iff, List.forall₂_same]
      intro pair _ name hname
      have hclear : name ∉ rowIdColumns := (mem_userColumns.mp (hcolumns ▸ hname)).2
      exact joinRow_eq h₁ h₂ hids₁ hids₂ hne pair hclear
    · cases hE
  · cases hE

theorem join_mirrors (h₁ : Mirrors E₁ L₁) (h₂ : Mirrors E₂ L₂) (hasId₁ : "_uuid" ∈ L₁.columns)
    (hasId₂ : "_uuid" ∈ L₂.columns) (hclear₁ : ∀ c ∈ L₁.columns, c ≠ "_uuid" → c ∉ rowIdColumns)
    (hclear₂ : ∀ c ∈ L₂.columns, c ≠ "_uuid" → c ∉ rowIdColumns) (hnames : ClearOfIds (BinaryExec.join op).names)
    (hE : op.executeNode E₁ E₂ = some E') :
    ∃ step, op.lineage supply L₁ L₂ = some step ∧ Mirrors E' step.df := by
  have hleftId : "_left_uuid" ∈ rowIdColumns := by decide
  have hrightId : "_right_uuid" ∈ rowIdColumns := by decide
  obtain ⟨leftDf, hleftDf, hleft⟩ := h₁.renameRowId hleftId hclear₁ hasId₁ (by decide)
  obtain ⟨rightDf, hrightDf, hright⟩ := h₂.renameRowId hrightId hclear₂ hasId₂ (by decide)
  have hrenamed₁ := rename_renamed hclear₁ hleftDf
  have hrenamed₂ := rename_renamed hclear₂ hrightDf
  have hids₁ : IdsIn "_left_uuid" leftDf := ⟨hleftId, hrenamed₁.columns⟩
  have hids₂ : IdsIn "_right_uuid" rightDf := ⟨hrightId, hrenamed₂.columns⟩
  have hne : "_right_uuid" ≠ "_left_uuid" := by decide
  obtain ⟨joined, hjoined, hmirrors⟩ := joined_mirrors hleft hright hids₁ hids₂ hne hnames.left.left hE
  have hin : "_left_uuid" ∈ joined.columns ∧ "_right_uuid" ∈ joined.columns := by
    unfold JoinOp.executeNode Frame.checkNames at hjoined
    split at hjoined
    · split at hjoined
      · cases hjoined
        have hdropsLeft : "_left_uuid" ∉ op.dropsLeft := fun hmem => hnames.left.right _ hmem hleftId
        have hdropsRight : "_right_uuid" ∉ op.dropsRight := fun hmem => hnames.right _ hmem hrightId
        have hrightMem : ("_right_uuid", "_right_uuid") ∈ op.rightNames leftDf rightDf := by
          rw [rightNames_eq]
          refine List.mem_map.mpr ⟨"_right_uuid", List.mem_filter.mpr ⟨hrenamed₂.hasColumn, by simpa using hdropsRight⟩, ?_⟩
          rw [rightName_of_rowId hids₁ hne hrightId]
        constructor
        · exact List.mem_append_left _ (List.mem_append_left _
            (List.mem_filter.mpr ⟨hrenamed₁.hasColumn, by simpa using hdropsLeft⟩))
        · exact List.mem_append_left _ (List.mem_append_right _ (List.mem_map.mpr ⟨_, hrightMem, rfl⟩))
      · cases hjoined
    · cases hjoined
  refine ⟨_, by rw [JoinOp.lineage, hleftDf, Option.bind_some, hrightDf, Option.bind_some, hjoined,
    Option.bind_some, if_pos hin], ?_⟩
  exact ((hmirrors.withIds supply).dropRowId hleftId).dropRowId hrightId

/-- **A binary operator on mirrored frames.** -/
theorem binary_mirrors {op : BinaryExec V} (h₁ : Mirrors E₁ L₁) (h₂ : Mirrors E₂ L₂)
    (hasId₁ : "_uuid" ∈ L₁.columns) (hasId₂ : "_uuid" ∈ L₂.columns)
    (hclear₁ : ∀ c ∈ L₁.columns, c ≠ "_uuid" → c ∉ rowIdColumns)
    (hclear₂ : ∀ c ∈ L₂.columns, c ≠ "_uuid" → c ∉ rowIdColumns) (hnames : ClearOfIds op.names)
    (hE : op.executeNode E₁ E₂ = some E') :
    ∃ step, op.lineage supply L₁ L₂ = some step ∧ Mirrors E' step.df := by
  cases op with
  | union => exact union_mirrors h₁ h₂ hasId₁ hasId₂ hclear₁ hE
  | join op => exact join_mirrors h₁ h₂ hasId₁ hasId₂ hclear₁ hclear₂ hnames hE

end

/-! ## Plans -/

/-- The materialised root without its row ids is what the plan computed, and the ids of the graph are sound. -/
def AgreesWith [ColumnValue V] [DecidableEq V] (plan : Plan V) (store : Store V) (supply : Nat)
    (result : Frame V) : Prop :=
  ∃ built, plan.buildNodeLineage store supply = some built ∧
    (built.operator.materializeTable.drop "_uuid").BagEq result ∧ Sound built.operator

section

variable [ColumnValue V] [PolarsCast V] [DecidableEq V]

/-- What the store holds, it keeps. -/
def Store.Le (store store' : Store V) : Prop :=
  ∀ key df, store key = some df → store' key = some df

omit [ColumnValue V] [PolarsCast V] [DecidableEq V] in
theorem Store.le_writeResult (store : Store V) (cacheKey : Option String) (result : Frame V) :
    store.Le (store.writeResult cacheKey result) := by
  intro key df hkey
  unfold Store.writeResult
  cases cacheKey with
  | none => exact hkey
  | some key' =>
    by_cases hstored : (store key').isSome
    · simp only [hstored, if_true]
      exact hkey
    · -- the key was free, so it is another one
      have hne : key ≠ key' := by
        rintro rfl
        rw [hkey] at hstored
        exact hstored rfl
      simp only [hstored, if_false, Bool.false_eq_true]
      rw [Function.update_of_ne hne]
      exact hkey

omit [ColumnValue V] [PolarsCast V] [DecidableEq V] in
theorem Store.Le.trans {store store' store'' : Store V} (h : store.Le store') (h' : store'.Le store'') :
    store.Le store'' :=
  fun key df hkey => h' key df (h key df hkey)

omit [ColumnValue V] [PolarsCast V] [DecidableEq V] in
theorem buildSource_mirrors {df : DataFrame V} (hclear : ClearOfIds df.columns) (supply : Nat) :
    Mirrors df.toFrame (buildSource supply df.toFrame).df :=
  (Mirrors.self df.nodup hclear).withIds supply

/-- **Building the graph computes what execution computes**, also when execution starts with a store that
    earlier parts of the plan have written to. -/
theorem execute_mirrors {plan : Plan V} {store store₁ store₂ : Store V} {E : Frame V} (supply : Nat)
    (hclear : ClearOfIds (plan.names store)) (hfaithful : plan.faithful store = true) (hle : store.Le store₁)
    (hexec : plan.execute store₁ = some (E, store₂)) :
    ∃ built, plan.buildNodeLineage store supply = some built ∧ Mirrors E built.df ∧ store.Le store₂ := by
  induction plan generalizing store₁ store₂ E supply with
  | inMemorySource source =>
    cases hexec
    have hnone : ∀ column ∈ source.df.columns, source.coercion? column = none := by
      intro column hcolumn
      exact Option.isNone_iff_eq_none.mp (List.all_eq_true.mp hfaithful column hcolumn)
    rw [TypedFrame.applyIngestionCoercions, if_pos hnone]
    exact ⟨_, rfl, buildSource_mirrors hclear supply, hle⟩
  | scan operatorName df =>
    cases hexec
    exact ⟨_, rfl, buildSource_mirrors hclear supply, hle⟩
  | cacheRead cacheKey =>
    obtain ⟨df, hdf⟩ := Option.isSome_iff_exists.mp hfaithful
    simp only [Plan.execute, hle cacheKey df hdf, Option.map_some, Option.some.injEq, Prod.mk.injEq] at hexec
    obtain ⟨rfl, rfl⟩ := hexec
    have hclearDf : ClearOfIds df.columns := by
      simpa only [Plan.names, hdf, Option.map_some, Option.getD_some] using hclear
    exact ⟨_, by rw [Plan.buildNodeLineage, hdf, Option.map_some], buildSource_mirrors hclearDf supply, hle⟩
  | unary op cacheKey child ih =>
    have hparts : op.faithful = true ∧ child.faithful store = true := by
      simpa only [Plan.faithful, Bool.and_eq_true] using hfaithful
    obtain ⟨⟨childDf, storeChild⟩, hchild, hrest⟩ := Option.bind_eq_some_iff.mp hexec
    obtain ⟨result, hresult, heq⟩ := Option.map_eq_some_iff.mp hrest
    cases heq
    obtain ⟨built, hbuilt, hmirrors, hleChild⟩ := ih supply hclear.right hparts.2 hle hchild
    have hid := (build_sound hclear.right hbuilt).identified
    obtain ⟨step, hstep, hstepMirrors⟩ : ∃ step, op.lineage built.supply built.df = some step ∧
        Mirrors E step.df := unary_mirrors hmirrors hid.hasId hclear.left hparts.1 hresult
    exact ⟨_, by rw [Plan.buildNodeLineage, hbuilt, Option.bind_some, hstep, Option.map_some], hstepMirrors,
      hleChild.trans (Store.le_writeResult _ _ _)⟩
  | binary op cacheKey left right ihLeft ihRight =>
    have hparts : left.faithful store = true ∧ right.faithful store = true := by
      simpa only [Plan.faithful, Bool.and_eq_true] using hfaithful
    obtain ⟨⟨leftDf, storeLeft⟩, hleft, hrest⟩ := Option.bind_eq_some_iff.mp hexec
    obtain ⟨⟨rightDf, storeRight⟩, hright, hrest⟩ := Option.bind_eq_some_iff.mp hrest
    obtain ⟨result, hresult, heq⟩ := Option.map_eq_some_iff.mp hrest
    cases heq
    obtain ⟨builtLeft, hbuiltLeft, hmirrorsLeft, hleLeft⟩ := ihLeft supply hclear.left.right hparts.1 hle hleft
    -- the right side may find in the store what the left side wrote
    obtain ⟨builtRight, hbuiltRight, hmirrorsRight, hleRight⟩ :=
      ihRight builtLeft.supply hclear.right hparts.2 hleLeft hright
    have hidLeft := (build_sound hclear.left.right hbuiltLeft).identified
    have hidRight := (build_sound hclear.right hbuiltRight).identified
    obtain ⟨step, hstep, hstepMirrors⟩ : ∃ step, op.lineage builtRight.supply builtLeft.df builtRight.df = some step ∧
        Mirrors E step.df :=
      binary_mirrors hmirrorsLeft hmirrorsRight hidLeft.hasId hidRight.hasId hidLeft.clear hidRight.clear
        hclear.left.left hresult
    exact ⟨_, by rw [Plan.buildNodeLineage, hbuiltLeft, Option.bind_some, hbuiltRight, Option.bind_some, hstep,
      Option.map_some], hstepMirrors, hleRight.trans (Store.le_writeResult _ _ _)⟩

omit [ColumnValue V] [PolarsCast V] [DecidableEq V] in
/-- A mirror without its ids has the same tuples. -/
theorem Mirrors.bagEq {E L : Frame V} (h : Mirrors E L) (hclear : ∀ c ∈ L.columns, c ≠ "_uuid" → c ∉ rowIdColumns) :
    (L.drop "_uuid").BagEq E := by
  have huuid : "_uuid" ∈ rowIdColumns := by decide
  have hcolumns : (L.drop "_uuid").columns = E.columns := by
    rw [← h.columns, Frame.drop, userColumns]
    refine List.filter_congr (fun c hc => ?_)
    by_cases hname : c = "_uuid"
    · simp [hname, huuid]
    · simp [hname, hclear c hc hname]
  refine ⟨hcolumns, List.Perm.of_eq ?_⟩
  unfold Frame.tuples
  rw [hcolumns]
  exact Rows.map_eq_of_forall₂ (fun r l hrow => List.map_congr_left hrow) h.rows

end

/-! ### Two equal rows -/

/-- A union of two equal rows, and its distinct rows. -/
def distinctPlan (subset : List String) : Plan String :=
  .unary (.dropDuplicates subset) none
    (.binary .union none (.scan "left" { columns := ["name"], rows := [fun _ => some "Ann"] })
      (.scan "right" { columns := ["name"], rows := [fun _ => some "Ann"] }))

end Lineage

end Fenic
