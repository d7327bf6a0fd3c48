import Fenic.Joins.Relational
import Fenic.SemanticOperators.SemanticJoin

/-!
# `SemanticOperators.JoinFrames` — the steps of a semantic join

What each step makes of the columns and rows: a key gets its alias (`normalize_eq`) and its name again (`restore_eq`), and
the joins on the row numbers put each pair that matches back together with its two rows, in any number of duplicates
(`Join.execute_eq`). All this needs the helper columns to be apart from the others; `normalize_columns`, `restore_columns` and
`Join.execute_columns` say what is left of the columns in any case.
-/

namespace Fenic

namespace SemanticOperators

open Lineage (Cell Row Frame RowExpr Agrees)

variable {V : Type}

/-! ## Keys under an alias -/

/-- The name of a key that is a plain column. -/
def columnName : RowExpr V → Option String
  | .column name => some name
  | .computed _ _ _ _ => none

/-- The columns of a side but for its key. -/
def otherColumns (col : RowExpr V) (columns : List String) : List String :=
  columns.filter fun c => columnName col ≠ some c

/-- The columns of a side once its key has the alias. -/
def normalColumns (col : RowExpr V) (aliasName : String) (columns : List String) : List String :=
  match col with
  | .column name => columns.map fun c => if c = name then aliasName else c
  | .computed _ _ _ _ => columns ++ [aliasName]

/-- A row whose key has its own name again. -/
def restoreRow (col : RowExpr V) (aliasName : String) (m : Row V) : Row V :=
  match col with
  | .column name => Function.update m name (m aliasName)
  | .computed _ _ _ _ => m

variable {col : RowExpr V} {columns : List String}

@[simp] theorem mem_otherColumns {c : String} :
    c ∈ otherColumns col columns ↔ c ∈ columns ∧ columnName col ≠ some c := by
  simp [otherColumns]

theorem columnName_mem (hroots : col.roots ⊆ columns) {name : String}
    (h : columnName col = some name) : name ∈ columns := by
  cases col with
  | column key =>
    cases h
    exact hroots (List.mem_singleton.mpr rfl)
  | computed _ _ _ _ => cases h

/-- A side whose key has its alias. -/
def normalFrame (col : RowExpr V) (aliasName : String) (df : Frame V) : Frame V :=
  ⟨normalColumns col aliasName df.columns, df.rows.map fun r => Function.update r aliasName (col.eval r)⟩

variable {df df' : Frame V}

theorem renameColumn_columns {old new : String} (h : renameColumn old new df = some df') (c : String) :
    c ∈ df'.columns ↔ c = new ∨ (c ∈ df.columns ∧ c ≠ old) := by
  unfold renameColumn at h
  split at h
  · case isTrue heq =>
      subst heq
      obtain ⟨hmem, rfl⟩ := Option.ite_none_right_eq_some.mp h |>.imp_right Option.some.inj
      constructor
      · intro hc
        by_cases hold : c = old
        · exact .inl hold
        · exact .inr ⟨hc, hold⟩
      · rintro (rfl | ⟨hc, -⟩)
        · exact hmem
        · exact hc
  · case isFalse hne =>
      obtain ⟨⟨hmem, -⟩, rfl⟩ := Option.ite_none_right_eq_some.mp h |>.imp_right Option.some.inj
      simp only [List.mem_map]
      constructor
      · rintro ⟨c', hc', rfl⟩
        split
        · exact .inl rfl
        · case isFalse hold => exact .inr ⟨hc', hold⟩
      · rintro (rfl | ⟨hc, hold⟩)
        · exact ⟨old, hmem, if_pos rfl⟩
        · exact ⟨c, hc, if_neg hold⟩

variable {aliasName : String} {name : Option String}

theorem normalize_columns
    (h : normalizeColumnBeforeJoin df col aliasName = some (df', name)) :
    name = columnName col ∧ ∀ c, c ∈ df'.columns ↔ c = aliasName ∨ c ∈ otherColumns col df.columns := by
  cases col with
  | column key =>
    obtain ⟨renamed, hrenamed, heq⟩ := Option.map_eq_some_iff.mp h
    cases heq
    refine ⟨rfl, fun c => ?_⟩
    rw [renameColumn_columns hrenamed, mem_otherColumns]
    simp [columnName, eq_comm]
  | computed name roots eval reads =>
    obtain ⟨extended, hextended, heq⟩ := Option.map_eq_some_iff.mp h
    cases heq
    obtain ⟨-, rfl⟩ := Option.ite_none_right_eq_some.mp hextended |>.imp_right Option.some.inj
    refine ⟨rfl, fun c => ?_⟩
    show c ∈ Frame.withName df.columns aliasName ↔ _
    rw [mem_otherColumns]
    unfold Frame.withName
    split
    · case isTrue hmem =>
        constructor
        · intro hc
          exact .inr ⟨hc, nofun⟩
        · rintro (rfl | ⟨hc, -⟩)
          · exact hmem
          · exact hc
    · simp [columnName, or_comm]

theorem renameColumn_rows {old new : String} (h : renameColumn old new df = some df') :
    df'.rows = [] ↔ df.rows = [] := by
  unfold renameColumn at h
  split at h
  · obtain ⟨-, rfl⟩ := Option.ite_none_right_eq_some.mp h |>.imp_right Option.some.inj
    rfl
  · obtain ⟨-, rfl⟩ := Option.ite_none_right_eq_some.mp h |>.imp_right Option.some.inj
    exact List.map_eq_nil_iff

theorem normalize_rows
    (h : normalizeColumnBeforeJoin df col aliasName = some (df', name)) : df'.rows = [] ↔ df.rows = [] := by
  cases col with
  | column key =>
    obtain ⟨renamed, hrenamed, heq⟩ := Option.map_eq_some_iff.mp h
    cases heq
    exact renameColumn_rows hrenamed
  | computed name roots eval reads =>
    obtain ⟨extended, hextended, heq⟩ := Option.map_eq_some_iff.mp h
    cases heq
    obtain ⟨-, rfl⟩ := Option.ite_none_right_eq_some.mp hextended |>.imp_right Option.some.inj
    exact List.map_eq_nil_iff

theorem normalize_eq (hroots : col.roots ⊆ df.columns)
    (halias : aliasName ∉ otherColumns col df.columns) :
    normalizeColumnBeforeJoin df col aliasName =
      some (normalFrame col aliasName df, columnName col) := by
  cases col with
  | column key =>
    have hkey : key ∈ df.columns := hroots (List.mem_singleton.mpr rfl)
    show (renameColumn key aliasName df).map _ = _
    unfold renameColumn
    by_cases heq : key = aliasName
    · subst heq
      have hcolumns : (df.columns.map fun c => if c = key then key else c) = df.columns := by
        rw [List.map_congr_left (g := id) (fun c _ => by split <;> simp_all), List.map_id]
      have hrows : (df.rows.map fun r => Function.update r key (r key)) = df.rows := by
        rw [List.map_congr_left (g := id) (fun r _ => Function.update_eq_self key r), List.map_id]
      rw [if_pos rfl, if_pos hkey, Option.map_some]
      show some (df, some key) = some (⟨df.columns.map fun c => if c = key then key else c, _⟩, some key)
      rw [hcolumns]
      show some (df, some key) = some (⟨df.columns, df.rows.map fun r => Function.update r key (r key)⟩, some key)
      rw [hrows]
    · have hnew : aliasName ∉ df.columns := by
        intro hmem
        exact halias (mem_otherColumns.mpr ⟨hmem, fun h => heq (Option.some.inj h)⟩)
      rw [if_neg heq, Frame.rename, if_pos ⟨hkey, hnew⟩]
      rfl
  | computed name roots eval reads =>
    have hnew : aliasName ∉ df.columns := fun hmem => halias (mem_otherColumns.mpr ⟨hmem, nofun⟩)
    have hnames : Frame.withName df.columns aliasName = df.columns ++ [aliasName] := if_neg hnew
    show (df.withColumn (.computed aliasName roots eval reads)).map _ = _
    unfold Frame.withColumn
    rw [if_pos (show (RowExpr.computed aliasName roots eval reads).roots ⊆ df.columns from hroots)]
    show some ((⟨Frame.withName df.columns aliasName, _⟩ : Frame V), none) = _
    rw [hnames]
    rfl

theorem restore_columns
    (h : restoreColumnAfterJoin df name aliasName = some df') {c : String} (hc : c ∈ df'.columns) :
    (name = some c ∧ c ≠ "") ∨ (c ∈ df.columns ∧ c ≠ aliasName) := by
  have hdropped : df' = df.drop aliasName → c ∈ df.columns ∧ c ≠ aliasName := by
    rintro rfl
    simpa [Frame.drop] using hc
  cases name with
  | none => exact .inr (hdropped (Option.some.inj h).symm)
  | some key =>
    unfold restoreColumnAfterJoin at h
    dsimp only at h
    split at h
    · case isTrue hne =>
        rcases (renameColumn_columns h c).mp hc with rfl | hc
        · exact .inl ⟨rfl, hne⟩
        · exact .inr hc
    · exact .inr (hdropped (Option.some.inj h).symm)

/-- Among other columns, the key gets back its name, or is dropped. -/
theorem restore_eq (before after : List String) {rows : List (Row V)}
    (hroots : col.roots ⊆ columns) (hname : columnName col ≠ some "") (halias : aliasName ∉ otherColumns col columns)
    (hbefore : aliasName ∉ before) (hafter : aliasName ∉ after)
    (hfree : ∀ name, columnName col = some name → name ∉ before ∧ name ∉ after) :
    restoreColumnAfterJoin ⟨before ++ normalColumns col aliasName columns ++ after, rows⟩ (columnName col) aliasName =
      some ⟨before ++ columns ++ after, rows.map (restoreRow col aliasName)⟩ := by
  cases col with
  | column key =>
    have hkey : key ∈ columns := hroots (List.mem_singleton.mpr rfl)
    have hne : key ≠ "" := fun h => hname (congrArg some h)
    obtain ⟨hkbefore, hkafter⟩ := hfree key rfl
    show (if key ≠ "" then renameColumn aliasName key _ else _) = _
    rw [if_pos hne]
    unfold renameColumn
    by_cases heq : aliasName = key
    · subst heq
      have hcolumns : normalColumns (.column aliasName : RowExpr V) aliasName columns = columns := by
        show (columns.map fun c => if c = aliasName then aliasName else c) = columns
        rw [List.map_congr_left (g := id) (fun c _ => by split <;> simp_all), List.map_id]
      have hrows : rows.map (restoreRow (.column aliasName) aliasName) = rows := by
        show (rows.map fun r => Function.update r aliasName (r aliasName)) = rows
        rw [List.map_congr_left (g := id) (fun r _ => Function.update_eq_self aliasName r), List.map_id]
      rw [if_pos rfl, hcolumns, hrows, if_pos (by simp [hkey])]
    · have hold : aliasName ∈ before ++ normalColumns (.column key : RowExpr V) aliasName columns ++ after := by
        have hmem : aliasName ∈ normalColumns (.column key : RowExpr V) aliasName columns :=
          List.mem_map.mpr ⟨key, hkey, if_pos rfl⟩
        simp [hmem]
      have hnew : key ∉ before ++ normalColumns (.column key : RowExpr V) aliasName columns ++ after := by
        have hnot : key ∉ normalColumns (.column key : RowExpr V) aliasName columns := by
          intro hmem
          obtain ⟨c, -, hc⟩ := List.mem_map.mp hmem
          split at hc
          · exact heq hc
          · case isFalse hck => exact hck hc
        simp [hnot, hkbefore, hkafter]
      have hsame : ∀ {cs : List String}, aliasName ∉ cs → (cs.map fun c => if c = aliasName then key else c) = cs := by
        intro cs hcs
        rw [List.map_congr_left (g := id) ?_, List.map_id]
        intro c hc
        exact if_neg fun h : c = aliasName => hcs (h ▸ hc)
      have hback : ((normalColumns (.column key : RowExpr V) aliasName columns).map fun c => if c = aliasName then key else c) =
          columns := by
        show ((columns.map fun c => if c = key then aliasName else c).map fun c => if c = aliasName then key else c) = columns
        rw [List.map_map, List.map_congr_left (g := id) ?_, List.map_id]
        intro c hc
        by_cases hck : c = key
        · simp [hck]
        · have hca : c ≠ aliasName := by
            rintro rfl
            exact halias (mem_otherColumns.mpr ⟨hc, fun h => hck (Option.some.inj h).symm⟩)
          simp [hck, hca]
      rw [if_neg heq, Frame.rename, if_pos ⟨hold, hnew⟩]
      simp only [List.map_append, hsame hbefore, hsame hafter, hback]
      rfl
  | computed name roots eval reads =>
    have hnew : aliasName ∉ columns := fun hmem => halias (mem_otherColumns.mpr ⟨hmem, nofun⟩)
    have hsame : ∀ {cs : List String}, aliasName ∉ cs → cs.filter (· ≠ aliasName) = cs := by
      intro cs hcs
      exact List.filter_eq_self.mpr fun c hc => decide_eq_true fun h => hcs (h ▸ hc)
    show some (Frame.drop aliasName ⟨before ++ (columns ++ [aliasName]) ++ after, rows⟩) = some ⟨_, rows.map id⟩
    rw [List.map_id, Frame.drop]
    simp only [List.filter_append, hsame hbefore, hsame hafter, hsame hnew]
    simp


/-! ## Joins on a column -/

/-- A row of a join on a column, of frames that share no other. -/
def joinedRow (key : String) (left right : List String) (l r : Row V) : Row V := fun name =>
  if name ∈ left then l name else if name ∈ right ∧ name ≠ key then r name else .null

section JoinOn

variable [DecidableEq V] {key : String} {f g h : Frame V}

theorem joinOn_columns (hjoin : joinOn key f g = some h) {c : String} (hc : c ∈ h.columns) :
    c ∈ f.columns ∨ (c ∈ g.columns ∧ c ≠ key) ∨ ∃ name, c = name ++ "_right" := by
  obtain ⟨-, hchecked⟩ := Option.ite_none_right_eq_some.mp hjoin
  obtain ⟨-, rfl⟩ := Option.ite_none_right_eq_some.mp hchecked |>.imp_right Option.some.inj
  rcases List.mem_append.mp (show c ∈ _ ++ Option.toList none from hc) with hc | hc
  · rcases List.mem_append.mp hc with hc | hc
    · exact .inl (List.mem_filter.mp hc).1
    · obtain ⟨_, hnames, rfl⟩ := List.mem_map.mp hc
      obtain ⟨name, hname, rfl⟩ := List.mem_map.mp hnames
      have hright := List.mem_filter.mp hname
      have hne : name ≠ key := by
        rintro rfl
        simp [Lineage.JoinExec, Lineage.mergedKeys, RowExpr.isColumn, RowExpr.name] at hright
      split
      · exact .inr (.inr ⟨name, rfl⟩)
      · exact .inr (.inl ⟨hright.1, hne⟩)
  · cases hc

/-- Without a clash of names, each row on the left goes with the rows on the right that have its key. -/
theorem joinOn_eq (hf : key ∈ f.columns) (hg : key ∈ g.columns) (hfnodup : f.columns.Nodup) (hgnodup : g.columns.Nodup)
    (hapart : ∀ c ∈ g.columns, c ≠ key → c ∉ f.columns) :
    joinOn key f g = some ⟨f.columns ++ g.columns.filter (· ≠ key), f.rows.flatMap fun l =>
      (g.rows.filter fun r => Lineage.keysMatch [l key] [r key]).map (joinedRow key f.columns g.columns l)⟩ := by
  have hleft : (Lineage.JoinExec [.column key] [.column key] .inner : Lineage.JoinOp V).leftNames f = f.columns := by
    apply List.filter_eq_self.mpr
    intro c _
    rfl
  have hdropped : (g.columns.filter fun c =>
      c ∉ (Lineage.JoinExec [.column key] [.column key] .inner : Lineage.JoinOp V).dropsRight) =
      g.columns.filter (· ≠ key) := by
    apply List.filter_congr
    intro c _
    simp [Lineage.JoinExec, Lineage.mergedKeys, RowExpr.isColumn, RowExpr.name]
  have hright : (Lineage.JoinExec [.column key] [.column key] .inner : Lineage.JoinOp V).rightNames f g =
      (g.columns.filter (· ≠ key)).map fun c => (c, c) := by
    rw [Lineage.JoinOp.rightNames, hdropped, hleft]
    apply List.map_congr_left
    intro c hc
    obtain ⟨hmem, hne⟩ := List.mem_filter.mp hc
    rw [if_neg (hapart c hmem (of_decide_eq_true hne))]
  have hnodup : (f.columns ++ g.columns.filter (· ≠ key)).Nodup := by
    apply hfnodup.append (hgnodup.filter _)
    intro c hc hc'
    obtain ⟨hmem, hne⟩ := List.mem_filter.mp hc'
    exact hapart c hmem (of_decide_eq_true hne) hc
  let rowOf (pair : Option (Row V) × Option (Row V)) : Row V := fun name =>
    if name ∈ f.columns then pair.1.elim .null fun l => l name
    else if name ∈ g.columns ∧ name ≠ key then pair.2.elim .null fun r => r name else .null
  have hrow : (Lineage.JoinExec [.column key] [.column key] .inner).joinRow f g = rowOf ∘ Joins.rowsAt f.rows g.rows := by
    funext pair name
    show (if none = some name then _ else if name ∈ Lineage.JoinOp.leftNames _ f then _ else _) = ite _ _ _
    rw [if_neg (Option.some_ne_none name).symm, hleft, hright]
    by_cases hmem : name ∈ f.columns
    · rw [if_pos hmem, if_pos hmem]
      rfl
    · rw [if_neg hmem, if_neg hmem]
      by_cases hother : name ∈ g.columns ∧ name ≠ key
      · have hlookup : ((g.columns.filter (· ≠ key)).map fun c => (c, c)).lookup name = some name :=
          Joins.lookup_self (List.mem_filter.mpr ⟨hother.1, decide_eq_true hother.2⟩)
        rw [hlookup, if_pos hother]
        rfl
      · have hlookup : ((g.columns.filter (· ≠ key)).map fun c => (c, c)).lookup name = none := by
          rw [List.lookup_eq_none_iff]
          rintro _ hentry
          obtain ⟨c, hc, rfl⟩ := List.mem_map.mp hentry
          rw [bne_iff_ne]
          rintro rfl
          obtain ⟨hmemg, hne⟩ := List.mem_filter.mp hc
          exact hother ⟨hmemg, of_decide_eq_true hne⟩
        rw [hlookup, if_neg hother]
  have hpairs : (Lineage.joinPairs .inner (f.rows.map (Lineage.groupKey [.column key]))
      (g.rows.map (Lineage.groupKey [.column key]))).map (Joins.rowsAt f.rows g.rows) =
      (f.rows.flatMap fun l => (g.rows.filter fun r => Lineage.keysMatch [l key] [r key]).map (Prod.mk l)).map
        fun q => (some q.1, some q.2) :=
    Joins.matched_rows Lineage.keysMatch (Lineage.groupKey [.column key]) (Lineage.groupKey [.column key]) f.rows g.rows
  have hroots : ∀ {h : Frame V}, key ∈ h.columns → ∀ e ∈ [(.column key : RowExpr V)], e.roots ⊆ h.columns := by
    intro h hmem e he
    cases List.mem_singleton.mp he
    simpa [RowExpr.roots] using hmem
  show (if (∀ e ∈ [(.column key : RowExpr V)], e.roots ⊆ f.columns) ∧ ∀ e ∈ [(.column key : RowExpr V)], e.roots ⊆ g.columns
    then Frame.checkNames _ else none) = _
  rw [if_pos ⟨hroots hf, hroots hg⟩, hleft, hright, hrow, ← List.map_map]
  show Frame.checkNames ⟨_ ++ _ ++ [], (List.map (Joins.rowsAt f.rows g.rows) (Lineage.joinPairs .inner
    (f.rows.map (Lineage.groupKey [.column key])) (g.rows.map (Lineage.groupKey [.column key])))).map rowOf⟩ = _
  rw [hpairs, List.map_map, List.map_map, List.append_nil]
  have hnames : ((g.columns.filter (· ≠ key)).map (Prod.fst ∘ fun c => (c, c))) = g.columns.filter (· ≠ key) := List.map_id _
  rw [hnames, Frame.checkNames, if_pos hnodup, List.map_flatMap]
  simp only [List.map_map]
  rfl

/-- If the keys on the right are distinct, the row with a key is the only one. -/
theorem filter_keysMatch {rows : List (Row V)} (hkeys : (rows.map fun r => r key).Nodup) {r : Row V} (hr : r ∈ rows)
    (hnull : r key ≠ .null) : (rows.filter fun r' => Lineage.keysMatch [r key] [r' key]) = [r] := by
  have hmatch : ∀ r' : Row V, Lineage.keysMatch [r key] [r' key] = decide (r key = r' key) := by
    intro r'
    have hcontains : [r key].contains .null = false := by
      simpa [eq_comm] using hnull
    rw [Lineage.keysMatch, hcontains, Bool.not_false, Bool.and_true]
    simp
  simp only [hmatch]
  induction rows with
  | nil => cases hr
  | cons r' rows ih =>
    obtain ⟨hnot, hkeys⟩ := List.nodup_cons.mp hkeys
    rcases List.mem_cons.mp hr with rfl | hr
    · rw [List.filter_cons_of_pos (p := fun r' : Row V => decide (r key = r' key)) (decide_eq_true rfl),
        List.filter_eq_nil_iff.mpr]
      intro r' hr' heq
      exact hnot (List.mem_map.mpr ⟨r', hr', (of_decide_eq_true heq).symm⟩)
    · rw [List.filter_cons_of_neg, ih hkeys hr]
      intro heq
      exact hnot (List.mem_map.mpr ⟨r, hr, of_decide_eq_true heq⟩)

end JoinOn

/-! ## Predictions -/

section Predictions

variable (model : JoinModel V)

@[simp] theorem prediction_none : model.prediction none = .none := rfl

@[simp] theorem prediction_empty : model.prediction (some "") = .none := rfl

theorem prediction_some {document : String} (h : document ≠ "") :
    model.prediction (some document) = predicatePrediction model.depth (model.answer document) := by
  rw [JoinModel.prediction, promptOf, if_neg h, Option.bind_some]

end Predictions

/-! ## `Join.execute` -/

namespace Join

variable [DecidableEq V]

/-- A frame with its rows numbered. -/
def indexed (name : String) (df : Frame V) : Frame V :=
  ⟨name :: df.columns, df.rows.zipIdx.map fun (r, i) => Function.update r name (.rowId i)⟩

variable {name : String} {df : Frame V}

omit [DecidableEq V] in
theorem withRowIndex_eq_some {df' : Frame V} :
    withRowIndex name df = some df' ↔ name ∉ df.columns ∧ df' = indexed name df := by
  rw [withRowIndex, Option.ite_none_left_eq_some, Option.some.injEq]
  exact and_congr_right fun _ => eq_comm

omit [DecidableEq V] in
theorem indexed_isEmpty : (indexed name df).rows.isEmpty = df.rows.isEmpty := by
  cases df with
  | mk columns rows => cases rows <;> rfl

variable {strict : Bool} {left right : Frame V}

/-- The columns of a result. -/
theorem execute_columns {model : JoinModel V} {result : Frame V}
    (h : execute model strict left right = some result) :
    leftIdKey ∉ left.columns ∧ rightIdKey ∉ right.columns ∧
      (∀ c ∈ result.columns, c ∈ left.columns ∨ c ∈ right.columns ∨ ∃ name, c = name ++ "_right") ∧
      (left.rows ≠ [] → right.rows ≠ [] → leftIdKey ∉ result.columns ∧ rightIdKey ∉ result.columns) := by
  obtain ⟨leftDf, hleft, h⟩ := Option.bind_eq_some_iff.mp h
  obtain ⟨rightDf, hright, h⟩ := Option.bind_eq_some_iff.mp h
  obtain ⟨hleftId, rfl⟩ := withRowIndex_eq_some.mp hleft
  obtain ⟨hrightId, rfl⟩ := withRowIndex_eq_some.mp hright
  refine ⟨hleftId, hrightId, ?_⟩
  rw [indexed_isEmpty, indexed_isEmpty] at h
  split at h
  · case isTrue hempty =>
      cases Option.some.inj h
      constructor
      · intro c hc
        have hmem := (Rows.uniqueBy_sublist id _).subset hc
        simp only [indexed, List.mem_append, List.mem_filter, List.mem_cons, decide_eq_true_eq] at hmem
        rcases hmem with ⟨rfl | hmem, hne⟩ | ⟨rfl | hmem, hne⟩
        · exact absurd rfl hne
        · exact .inl hmem
        · exact absurd rfl hne
        · exact .inr (.inl hmem)
      · intro hl hr
        rcases Bool.or_eq_true_iff.mp hempty with hempty | hempty
        · exact absurd (List.isEmpty_iff.mp hempty) hl
        · exact absurd (List.isEmpty_iff.mp hempty) hr
  · obtain ⟨-, h⟩ := Option.ite_none_left_eq_some.mp h
    obtain ⟨joined, hjoined, h⟩ := Option.bind_eq_some_iff.mp h
    obtain ⟨both, hboth, rfl⟩ := Option.map_eq_some_iff.mp h
    have hdropped : ∀ c, c ∈ ((both.drop leftIdKey).drop rightIdKey).columns ↔
        c ∈ both.columns ∧ c ≠ leftIdKey ∧ c ≠ rightIdKey := by
      intro c
      simp only [Frame.drop, List.mem_filter, decide_eq_true_eq]
      exact and_assoc
    constructor
    · intro c hc
      obtain ⟨hmem, hneLeft, hneRight⟩ := (hdropped c).mp hc
      rcases joinOn_columns hboth hmem with hmem | ⟨hmem, -⟩ | hsuffix
      · rcases joinOn_columns hjoined hmem with hmem | ⟨hmem, -⟩ | hsuffix
        · simp [hneLeft, hneRight] at hmem
        · exact .inl ((List.mem_cons.mp hmem).resolve_left hneLeft)
        · exact .inr (.inr hsuffix)
      · exact .inr (.inl ((List.mem_cons.mp hmem).resolve_left hneRight))
      · exact .inr (.inr hsuffix)
    · intro _ _
      exact ⟨fun hc => ((hdropped _).mp hc).2.1 rfl, fun hc => ((hdropped _).mp hc).2.2 rfl⟩

/-- The result for a pair of rows. -/
def pairOf (model : JoinModel V) (strict : Bool) (pair : Row V × Row V) : JoinPair V :=
  { leftId := pair.1 leftIdKey, rightId := pair.2 rightIdKey,
    renderedInstruction := model.render strict (pair.1 leftOnKey) (pair.2 rightOnKey) }

/-- A pair is asked about. -/
def isAsked (strict : Bool) (pair : Row V × Row V) : Bool :=
  !(strict && isNull (pair.1 leftOnKey)) && !(strict && isNull (pair.2 rightOnKey))

omit [DecidableEq V] in
theorem buildJoinPairs_eq (model : JoinModel V) (strict : Bool) (left right : Frame V) :
    buildJoinPairs model strict left right =
      ((left.rows ×ˢ right.rows).filter (isAsked strict)).map (pairOf model strict) := by
  have hdocuments : ∀ (key idKey : String) (df : Frame V), documents strict key idKey df =
      (df.rows.filter fun r => !(strict && isNull (r key))).map fun r => (r key, r idKey) :=
    fun key idKey df => List.filter_map
  have hproduct : (left.rows ×ˢ right.rows).filter (isAsked strict) =
      (left.rows.filter fun r => !(strict && isNull (r leftOnKey))) ×ˢ
        (right.rows.filter fun r => !(strict && isNull (r rightOnKey))) :=
    (EquiJoin.product_filter (fun r : Row V => !(strict && isNull (r leftOnKey)))
      (fun r : Row V => !(strict && isNull (r rightOnKey))) left.rows right.rows).symm
  rw [buildJoinPairs, hdocuments, hdocuments, hproduct, List.flatMap_map]
  show _ = List.map _ (List.flatMap _ _)
  rw [List.map_flatMap]
  simp only [List.map_map]
  rfl

/-- The prediction for a pair of rows. -/
def pairOutcome (model : JoinModel V) (strict : Bool) (pair : Row V × Row V) : PyValue :=
  model.prediction (model.document strict (pair.1 leftOnKey) (pair.2 rightOnKey))

omit [DecidableEq V] in
theorem pairOutcome_eq (model : JoinModel V) (strict : Bool) (pair : Row V × Row V) :
    pairOutcome model strict pair =
      if isAsked strict pair then model.prediction (pairOf model strict pair).renderedInstruction else .none := by
  unfold pairOutcome JoinModel.document isAsked
  cases strict <;> cases isNull (pair.1 leftOnKey) <;> cases isNull (pair.2 rightOnKey) <;> rfl

omit [DecidableEq V] in
theorem filter_columns {columns : List String} (h : name ∉ columns) :
    (name :: columns).filter (· ≠ name) = columns := by
  rw [List.filter_cons_of_neg (by simp)]
  exact List.filter_eq_self.mpr fun c hc => decide_eq_true fun heq => h (heq ▸ hc)

theorem execute_of_empty {model : JoinModel V} (hleft : leftIdKey ∉ left.columns)
    (hright : rightIdKey ∉ right.columns) (hnodup : (left.columns ++ right.columns).Nodup)
    (hempty : left.rows = [] ∨ right.rows = []) :
    execute model strict left right = some ⟨left.columns ++ right.columns, []⟩ := by
  have hisEmpty : (left.rows.isEmpty || right.rows.isEmpty) = true := by
    simpa using hempty
  unfold execute
  rw [withRowIndex_eq_some.mpr ⟨hleft, rfl⟩, Option.bind_some, withRowIndex_eq_some.mpr ⟨hright, rfl⟩, Option.bind_some,
    indexed_isEmpty, indexed_isEmpty, if_pos hisEmpty, emptyResultWithSchema]
  simp only [indexed]
  rw [filter_columns hleft, filter_columns hright, Rows.uniqueBy_id hnodup]

omit [DecidableEq V] in
theorem indexed_keys (name : String) (df : Frame V) : ((indexed name df).rows.map fun r => r name).Nodup := by
  have hkeys : ((indexed name df).rows.map fun r => r name) = (df.rows.zipIdx.map Prod.snd).map Cell.rowId := by
    simp only [indexed, List.map_map]
    apply List.map_congr_left
    rintro ⟨r, i⟩ _
    exact Function.update_self name _ r
  rw [hkeys, List.zipIdx_map_snd]
  exact List.Nodup.map (fun i j h => Cell.rowId.inj h) List.nodup_range'

omit [DecidableEq V] in
theorem indexed_key_ne_null {r : Row V} (h : r ∈ (indexed name df).rows) :
    r name ≠ .null := by
  obtain ⟨⟨r, i⟩, -, rfl⟩ := List.mem_map.mp h
  show Function.update r name (.rowId i) name ≠ .null
  rw [Function.update_self]
  nofun

/-- Rows that have the key of a row each on the right are put together with it. -/
theorem flatMap_keysMatch {α : Type} {key : String} {pairs : List α} {rows : List (Row V)} {m r : α → Row V}
    (hkeys : (rows.map fun r => r key).Nodup) (h : ∀ a ∈ pairs, r a ∈ rows ∧ m a key = r a key ∧ r a key ≠ .null)
    (put : Row V → Row V → Row V) :
    ((pairs.map m).flatMap fun l => (rows.filter fun r' => Lineage.keysMatch [l key] [r' key]).map (put l)) =
      pairs.map fun a => put (m a) (r a) := by
  rw [List.flatMap_map, List.map_eq_flatMap]
  apply List.flatMap_congr
  intro a ha
  obtain ⟨hmem, heq, hnull⟩ := h a ha
  rw [heq, filter_keysMatch hkeys hmem hnull]
  rfl

/-- A join on row numbers, of rows that each have the number of a row on the right. -/
theorem joinOn_indexed {α : Type} {columns : List String} {pairs : List α} (m r : α → Row V)
    (hname : name ∈ columns) (hcolumns : columns.Nodup) (hright : (name :: right.columns).Nodup)
    (hapart : ∀ c ∈ right.columns, c ∉ columns) (h : ∀ a ∈ pairs, r a ∈ (indexed name right).rows ∧ m a name = r a name) :
    joinOn name ⟨columns, pairs.map m⟩ (indexed name right) =
      some ⟨columns ++ right.columns, pairs.map fun a => joinedRow name columns (name :: right.columns) (m a) (r a)⟩ := by
  have hapart' : ∀ c ∈ (indexed name right).columns, c ≠ name → c ∉ columns :=
    fun c hc hne => hapart c ((List.mem_cons.mp hc).resolve_left hne)
  have hrows := flatMap_keysMatch (indexed_keys name right) (m := m)
    (fun a ha => ⟨(h a ha).1, (h a ha).2, indexed_key_ne_null (h a ha).1⟩) (joinedRow name columns (name :: right.columns))
  have hkept : (indexed name right).columns.filter (· ≠ name) = right.columns := filter_columns (List.nodup_cons.mp hright).1
  rw [joinOn_eq hname List.mem_cons_self hcolumns hright hapart', hkept]
  exact congrArg (fun rows => some (⟨columns ++ right.columns, rows⟩ : Frame V)) hrows

/-- What the joins on the row numbers make of a pair. -/
def joinedPair (model : JoinModel V) (strict : Bool) (left right : List String) (pair : Row V × Row V) : Row V :=
  joinedRow rightIdKey (leftIdKey :: rightIdKey :: left) (rightIdKey :: right)
    (joinedRow leftIdKey [leftIdKey, rightIdKey] (leftIdKey :: left) (idRow (pairOf model strict pair)) pair.1) pair.2

omit [DecidableEq V] in
theorem predictions_isNone (model : JoinModel V) (strict : Bool) (left right : Frame V) :
    (predictions model ((buildJoinPairs model strict left right).map JoinPair.renderedInstruction)).all PyValue.isNone =
      (left.rows ×ˢ right.rows).all fun pair => (pairOutcome model strict pair).isNone := by
  rw [buildJoinPairs_eq, predictions, List.map_map, List.map_map, List.all_map, List.all_filter]
  congr 1
  funext pair
  rw [pairOutcome_eq]
  cases isAsked strict pair <;> rfl

omit [DecidableEq V] in
theorem filteredResults_eq (model : JoinModel V) (strict : Bool) (left right : Frame V) :
    (((buildJoinPairs model strict left right).zip
        (predictions model ((buildJoinPairs model strict left right).map JoinPair.renderedInstruction))).filter
          fun entry => entry.2.isTrue).map (fun entry => idRow entry.1) =
      ((left.rows ×ˢ right.rows).filter fun pair => (pairOutcome model strict pair).isTrue).map
        fun pair => idRow (pairOf model strict pair) := by
  rw [predictions, List.map_map, ← List.map_prod_left_eq_zip, List.filter_map, List.map_map, buildJoinPairs_eq,
    List.filter_map, List.map_map, List.filter_filter]
  congr 1
  apply List.filter_congr
  intro pair _
  rw [pairOutcome_eq]
  cases hasked : isAsked strict pair with
  | false => simp [PyValue.isTrue]
  | true => simp

/-- The joins on the row numbers bring back the rows of the pairs. -/
theorem joinOn_pairs {model : JoinModel V} {pairs : List (Row V × Row V)}
    (hleftId : leftIdKey ∉ left.columns ++ right.columns) (hrightId : rightIdKey ∉ left.columns ++ right.columns)
    (hnodup : (left.columns ++ right.columns).Nodup)
    (hpairs : ∀ pair ∈ pairs, pair.1 ∈ (indexed leftIdKey left).rows ∧ pair.2 ∈ (indexed rightIdKey right).rows) :
    ((joinOn leftIdKey ⟨[leftIdKey, rightIdKey], pairs.map fun pair => idRow (pairOf model strict pair)⟩
        (indexed leftIdKey left)).bind fun joinedDf =>
      (joinOn rightIdKey joinedDf (indexed rightIdKey right)).map fun joinedDf =>
        (joinedDf.drop leftIdKey).drop rightIdKey) =
      some ⟨left.columns ++ right.columns, pairs.map (joinedPair model strict left.columns right.columns)⟩ := by
  simp only [List.mem_append, not_or] at hleftId hrightId
  obtain ⟨hleft, hright, hdisjoint⟩ := List.nodup_append.mp hnodup
  have hids : [leftIdKey, rightIdKey].Nodup := by decide
  have hleftApart : ∀ c ∈ left.columns, c ∉ [leftIdKey, rightIdKey] := by
    intro c hc hin
    rcases List.mem_pair.mp hin with rfl | rfl
    · exact hleftId.1 hc
    · exact hrightId.1 hc
  have hrightApart : ∀ c ∈ right.columns, c ∉ [leftIdKey, rightIdKey] ++ left.columns := by
    intro c hc hin
    rcases List.mem_append.mp hin with hin | hin
    · rcases List.mem_pair.mp hin with rfl | rfl
      · exact hleftId.2 hc
      · exact hrightId.2 hc
    · exact hdisjoint c hin c hc rfl
  -- the number of the left row leads back to that row, and so does the number of the right row
  rw [joinOn_indexed (fun pair => idRow (pairOf model strict pair)) Prod.fst (by simp) hids (List.nodup_cons.mpr ⟨hleftId.1, hleft⟩)
      hleftApart fun pair hpair => ⟨(hpairs pair hpair).1, rfl⟩,
    Option.bind_some,
    joinOn_indexed (fun pair => joinedRow leftIdKey [leftIdKey, rightIdKey] (leftIdKey :: left.columns)
      (idRow (pairOf model strict pair)) pair.1) Prod.snd (by simp) (hids.append hleft fun c hin hc => hleftApart c hc hin) (List.nodup_cons.mpr ⟨hrightId.2, hright⟩)
      hrightApart fun pair hpair => ⟨(hpairs pair hpair).2, rfl⟩,
    Option.map_some]
  have hne : leftIdKey ∉ rightIdKey :: (left.columns ++ right.columns) := by
    have hne : leftIdKey ≠ rightIdKey := by decide
    simp [hne, hleftId]
  have hnames : ((leftIdKey :: rightIdKey :: (left.columns ++ right.columns)).filter (· ≠ leftIdKey)).filter (· ≠ rightIdKey) =
      left.columns ++ right.columns := by
    rw [filter_columns hne, filter_columns (by simp [hrightId])]
  exact congrArg (fun columns => some (⟨columns, _⟩ : Frame V)) hnames

theorem execute_eq (model : JoinModel V) (strict : Bool)
    (hleftId : leftIdKey ∉ left.columns ++ right.columns) (hrightId : rightIdKey ∉ left.columns ++ right.columns)
    (hnodup : (left.columns ++ right.columns).Nodup) (hl : left.rows ≠ []) (hr : right.rows ≠ []) :
    execute model strict left right =
      if (((indexed leftIdKey left).rows ×ˢ (indexed rightIdKey right).rows).all fun pair =>
          (pairOutcome model strict pair).isNone) && !model.filtersByNulls then none
      else some ⟨left.columns ++ right.columns,
        (((indexed leftIdKey left).rows ×ˢ (indexed rightIdKey right).rows).filter fun pair =>
          (pairOutcome model strict pair).isTrue).map (joinedPair model strict left.columns right.columns)⟩ := by
  have hisEmpty : ¬ (left.rows.isEmpty || right.rows.isEmpty) = true := by
    simp [hl, hr]
  unfold execute
  rw [withRowIndex_eq_some.mpr ⟨fun h => hleftId (List.mem_append_left _ h), rfl⟩, Option.bind_some,
    withRowIndex_eq_some.mpr ⟨fun h => hrightId (List.mem_append_right _ h), rfl⟩, Option.bind_some,
    indexed_isEmpty, indexed_isEmpty, if_neg hisEmpty]
  dsimp only
  unfold postprocess
  rw [predictions_isNone, filteredResults_eq]
  congr 1
  exact joinOn_pairs hleftId hrightId hnodup fun pair hpair => List.mem_product.mp (List.mem_filter.mp hpair).1

end Join

end SemanticOperators

end Fenic
