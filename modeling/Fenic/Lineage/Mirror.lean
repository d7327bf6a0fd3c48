import Fenic.Lineage.Soundness

/-!
# `Lineage.Mirror` — a frame beside the same frame with row ids

`Mirrors E L` says that `L` is `E` with row id columns added. Every frame operation that keeps away from the
row id columns takes mirrored frames to mirrored frames; so do, on the side of `L` alone, the operations that
add, renew, rename and drop row id columns.
-/

namespace Fenic

namespace Lineage

variable {V : Type}

/-- The columns of the data. -/
def userColumns (columns : List String) : List String :=
  columns.filter (fun c => decide (c ∉ rowIdColumns))

/-- `L` has the data columns and, row for row, the data of `E`. -/
structure Mirrors (E L : Frame V) : Prop where
  columns : userColumns L.columns = E.columns
  rows : List.Forall₂ (Agrees E.columns) E.rows L.rows
  nodup : L.columns.Nodup

/-! ## Data columns -/

variable {columns : List String}

theorem mem_userColumns {c : String} :
    c ∈ userColumns columns ↔ c ∈ columns ∧ c ∉ rowIdColumns := by
  rw [userColumns, List.mem_filter, decide_eq_true_eq]

theorem userColumns_of_clear (h : ClearOfIds columns) : userColumns columns = columns :=
  List.filter_eq_self.mpr (fun c hc => decide_eq_true (h c hc))

theorem userColumns_append (columns columns' : List String) :
    userColumns (columns ++ columns') = userColumns columns ++ userColumns columns' :=
  List.filter_append _ _

theorem nodup_withName (name : String) (h : columns.Nodup) :
    (Frame.withName columns name).Nodup := by
  unfold Frame.withName
  split
  · exact h
  · rename_i hnew
    refine List.nodup_append.mpr ⟨h, List.nodup_singleton name, fun c hc c' hc' heq => ?_⟩
    rw [heq, List.mem_singleton.mp hc'] at hc
    exact hnew hc

/-- Setting a data column. -/
theorem userColumns_withName {name : String} (hname : name ∉ rowIdColumns) :
    userColumns (Frame.withName columns name) = Frame.withName (userColumns columns) name := by
  by_cases hmem : name ∈ columns
  · rw [Frame.withName, Frame.withName, if_pos hmem, if_pos (mem_userColumns.mpr ⟨hmem, hname⟩)]
  · have hnot : name ∉ userColumns columns := fun h => hmem (mem_userColumns.mp h).1
    have hclear : ClearOfIds [name] := by simpa [ClearOfIds] using hname
    rw [Frame.withName, Frame.withName, if_neg hmem, if_neg hnot, userColumns_append, userColumns_of_clear hclear]

/-- Setting a row id column. -/
theorem userColumns_withName_rowId {name : String} (hname : name ∈ rowIdColumns) :
    userColumns (Frame.withName columns name) = userColumns columns := by
  unfold Frame.withName
  split
  · rfl
  · rw [userColumns_append]
    simp [userColumns, hname]

/-- A list of names has no name twice when its data columns and its row id columns have none. -/
theorem nodup_of_parts (huser : (userColumns columns).Nodup)
    (hids : (columns.filter (fun c => !decide (c ∉ rowIdColumns))).Nodup) : columns.Nodup := by
  refine (List.filter_append_perm (fun c => decide (c ∉ rowIdColumns)) columns).nodup_iff.mp ?_
  refine List.nodup_append.mpr ⟨huser, hids, fun c hc c' hc' heq => ?_⟩
  have hyes := (List.mem_filter.mp hc).2
  have hno := (List.mem_filter.mp hc').2
  rw [heq] at hyes
  simp only [hyes] at hno
  cases hno

namespace Mirrors

variable {E L : Frame V}

theorem mem_iff (h : Mirrors E L) {c : String} : c ∈ E.columns ↔ c ∈ L.columns ∧ c ∉ rowIdColumns := by
  rw [← h.columns]
  exact mem_userColumns

theorem clear (h : Mirrors E L) : ClearOfIds E.columns :=
  fun _ hc => (h.mem_iff.mp hc).2

theorem subset (h : Mirrors E L) {names : List String} (hnames : names ⊆ E.columns) : names ⊆ L.columns :=
  fun _ hc => (h.mem_iff.mp (hnames hc)).1

theorem length_eq (h : Mirrors E L) : L.rows.length = E.rows.length :=
  h.rows.length_eq.symm

/-- A frame of data mirrors itself. -/
theorem self {f : Frame V} (hnodup : f.columns.Nodup) (hclear : ClearOfIds f.columns) : Mirrors f f where
  columns := userColumns_of_clear hclear
  rows := List.forall₂_same.mpr (fun _ _ _ _ => rfl)
  nodup := hnodup

/-- What is computed from the row at a position, if there is one. -/
theorem elim_eq (h : Mirrors E L) {f : Row V → Cell V} (hf : ∀ r l, Agrees E.columns r l → f l = f r) (i : Nat) :
    (L.rows[i]?).elim .null f = (E.rows[i]?).elim .null f := by
  have hrel := Rows.rel_getElem? h.rows i
  cases hE : E.rows[i]? with
  | none =>
    rw [hE] at hrel
    cases hL : L.rows[i]? with
    | none => rfl
    | some l =>
      rw [hL] at hrel
      cases hrel
  | some r =>
    rw [hE] at hrel
    cases hL : L.rows[i]? with
    | none =>
      rw [hL] at hrel
      cases hrel
    | some l =>
      rw [hL] at hrel
      cases hrel with
      | some hrow => exact hf r l hrow

/-! ## Row id columns of `L` -/

variable {columns : List String} {name : String} {r l : Row V}

/-- The cells of a row id column do not matter. -/
theorem agrees_update (hclear : ClearOfIds columns)
    (hname : name ∈ rowIdColumns) (h : Agrees columns r l) (cell : Cell V) :
    Agrees columns r (Function.update l name cell) := by
  intro c hc
  rw [Function.update_of_ne (hclear.ne hc name hname)]
  exact h c hc

theorem withIds (h : Mirrors E L) (supply : Nat) : Mirrors E (L.withIds supply) where
  columns := by
    rw [Frame.withIds, userColumns_withName_rowId (by decide), h.columns]
  rows := by
    have hzip : ∀ {rows ls : List (Row V)}, List.Forall₂ (Agrees E.columns) rows ls → ∀ n,
        List.Forall₂ (Agrees E.columns) rows
          (List.zipWith (fun r n => Function.update r "_uuid" (Cell.rowId n)) ls (List.range' n ls.length)) := by
      intro rows ls hrows
      induction hrows with
      | nil => exact fun _ => List.Forall₂.nil
      | cons hrow _ ih =>
        intro n
        exact List.Forall₂.cons (agrees_update h.clear (by decide) hrow _) (ih (n + 1))
    exact hzip h.rows supply
  nodup := nodup_withName _ h.nodup

theorem renewIds (h : Mirrors E L) {supply : Nat} {renewed : Frame V} (hrenewed : L.renewIds supply = some renewed) :
    Mirrors E renewed := by
  rw [renewIds_eq hrenewed]
  refine withIds ⟨?_, ?_, nodup_withName _ h.nodup⟩ supply
  · rw [userColumns_withName_rowId (by decide), h.columns]
  · rw [List.forall₂_map_right_iff]
    exact h.rows.imp (fun r l hrow => agrees_update h.clear (by decide) hrow _)

theorem renewIds_isSome (hasId : "_uuid" ∈ L.columns) (supply : Nat) :
    ∃ renewed, L.renewIds supply = some renewed := by
  have hroots : ((RowExpr.column "_uuid").alias "_backwards_uuid" : RowExpr V).roots ⊆ L.columns := by
    intro c hc
    rw [List.mem_singleton.mp hc]
    exact hasId
  exact ⟨_, by rw [Frame.renewIds, Frame.withColumn, if_pos hroots, Option.map_some]⟩

theorem dropRowId (h : Mirrors E L) (hname : name ∈ rowIdColumns) : Mirrors E (L.drop name) where
  columns := by
    have hfilter : userColumns (L.drop name).columns = userColumns L.columns := by
      rw [Frame.drop, userColumns, userColumns, List.filter_filter]
      refine List.filter_congr (fun c _ => ?_)
      by_cases hc : c ∈ rowIdColumns
      · simp [hc]
      · have hne : c ≠ name := fun heq => hc (heq ▸ hname)
        simp [hc, hne]
    rw [hfilter, h.columns]
  rows := h.rows
  nodup := h.nodup.filter _

/-- The column of row ids under another name. -/
theorem renameRowId (h : Mirrors E L) {column : String} (hcolumn : column ∈ rowIdColumns)
    (hids : ∀ c ∈ L.columns, c ≠ "_uuid" → c ∉ rowIdColumns) (hasId : "_uuid" ∈ L.columns)
    (hne : column ≠ "_uuid") : ∃ renamed, L.rename "_uuid" column = some renamed ∧ Mirrors E renamed := by
  have hnew : column ∉ L.columns := fun hmem => hids column hmem hne hcolumn
  refine ⟨_, by rw [Frame.rename, if_pos ⟨hasId, hnew⟩], ?_, ?_, ?_⟩
  · have hmap : ∀ columns : List String, userColumns (columns.map (fun c => if c = "_uuid" then column else c)) =
        userColumns columns := by
      intro columns
      induction columns with
      | nil => rfl
      | cons c columns ih =>
        rw [userColumns] at ih ⊢
        rw [userColumns] at ih ⊢
        by_cases hc : c = "_uuid"
        · simp only [List.map_cons, hc, if_true, List.filter_cons, hcolumn, not_true_eq_false, decide_false,
            Bool.false_eq_true, if_false, ih]
          rfl
        · simp only [List.map_cons, hc, if_false, List.filter_cons, ih]
    rw [hmap, h.columns]
  · rw [List.forall₂_map_right_iff]
    exact h.rows.imp (fun r l hrow => agrees_update h.clear hcolumn hrow _)
  · refine h.nodup.map_on (fun c hc c' hc' heq => ?_)
    by_cases huuid : c = "_uuid"
    · by_cases huuid' : c' = "_uuid"
      · rw [huuid, huuid']
      · rw [if_pos huuid, if_neg huuid'] at heq
        exact absurd (heq ▸ hc') hnew
    · by_cases huuid' : c' = "_uuid"
      · rw [if_neg huuid, if_pos huuid'] at heq
        exact absurd (heq ▸ hc) hnew
      · rwa [if_neg huuid, if_neg huuid'] at heq

/-! ## Operations on the data -/

/-- The rows are changed in the same way. -/
theorem mapRows (h : Mirrors E L) {columns' : List String} {f f' : Row V → Row V}
    (hcolumns : userColumns columns' = columns) (hnodup : columns'.Nodup)
    (hf : ∀ r l, Agrees E.columns r l → Agrees columns (f r) (f' l)) :
    Mirrors ⟨columns, E.rows.map f⟩ ⟨columns', L.rows.map f'⟩ where
  columns := hcolumns
  rows := by
    rw [List.forall₂_map_left_iff, List.forall₂_map_right_iff]
    exact h.rows.imp hf
  nodup := hnodup

/-- Rows are left out in the same way. -/
theorem filterRows (h : Mirrors E L) {p p' : Row V → Bool} (hp : ∀ r l, Agrees E.columns r l → p' l = p r) :
    Mirrors ⟨E.columns, E.rows.filter p⟩ ⟨L.columns, L.rows.filter p'⟩ where
  columns := h.columns
  rows := by
    refine List.rel_filter (fun r l hrow => ?_) h.rows
    show p r = true ↔ p' l = true
    rw [hp r l hrow]
  nodup := h.nodup

/-- Other rows, related in pairs. -/
theorem withRows (h : Mirrors E L) {rows rows' : List (Row V)}
    (hrows : List.Forall₂ (Agrees E.columns) rows rows') : Mirrors ⟨E.columns, rows⟩ ⟨L.columns, rows'⟩ :=
  ⟨h.columns, hrows, h.nodup⟩

theorem eval_eq {e : RowExpr V} (hroots : e.roots ⊆ columns)
    (h : Agrees columns r l) : e.eval l = e.eval r :=
  e.eval_of_agrees (h.mono hroots)

/-- Setting a cell on both sides. -/
theorem agrees_update_both (h : Agrees columns r l) (name : String)
    (cell : Cell V) : Agrees (Frame.withName columns name) (Function.update r name cell)
      (Function.update l name cell) := by
  intro c hc
  by_cases hname : c = name
  · rw [hname, Function.update_self, Function.update_self]
  · rw [Function.update_of_ne hname, Function.update_of_ne hname]
    exact h c ((mem_withName.mp hc).resolve_right hname)

theorem agrees_update_mem (h : Agrees columns r l) (name : String)
    (cell : Cell V) : Agrees columns (Function.update r name cell) (Function.update l name cell) :=
  (agrees_update_both h name cell).mono (fun _ hc => mem_withName.mpr (Or.inl hc))

variable {E' : Frame V}

theorem withColumn (h : Mirrors E L) {e : RowExpr V} (hname : e.name ∉ rowIdColumns)
    (hE : E.withColumn e = some E') : ∃ L', L.withColumn e = some L' ∧ Mirrors E' L' := by
  unfold Frame.withColumn at hE
  split at hE
  · rename_i hroots
    cases hE
    refine ⟨_, by rw [Frame.withColumn, if_pos (h.subset hroots)], ?_⟩
    refine h.mapRows ?_ (nodup_withName _ h.nodup) (fun r l hrow => ?_)
    · rw [userColumns_withName hname, h.columns]
    · rw [eval_eq hroots hrow]
      exact agrees_update_both hrow _ _
  · cases hE

theorem withSeries (h : Mirrors E L) {cells : List (Cell V)}
    (hname : name ∉ rowIdColumns) (hE : E.withSeries name cells = some E') :
    ∃ L', L.withSeries name cells = some L' ∧ Mirrors E' L' := by
  unfold Frame.withSeries at hE
  split at hE
  · rename_i hlength
    cases hE
    refine ⟨_, by rw [Frame.withSeries, if_pos (hlength.trans h.length_eq.symm)], ?_, ?_, nodup_withName _ h.nodup⟩
    · rw [userColumns_withName hname, h.columns]
    · have hzip : ∀ {rows ls : List (Row V)}, List.Forall₂ (Agrees E.columns) rows ls → ∀ cells : List (Cell V),
          List.Forall₂ (Agrees (Frame.withName E.columns name))
            (List.zipWith (fun r cell => Function.update r name cell) rows cells)
            (List.zipWith (fun r cell => Function.update r name cell) ls cells) := by
        intro rows ls hrows
        induction hrows with
        | nil => exact fun _ => List.Forall₂.nil
        | cons hrow _ ih =>
          intro cells
          cases cells with
          | nil => exact List.Forall₂.nil
          | cons cell cells => exact List.Forall₂.cons (agrees_update_both hrow name cell) (ih cells)
      exact hzip h.rows cells
  · cases hE

theorem drop (h : Mirrors E L) (name : String) : Mirrors (E.drop name) (L.drop name) where
  columns := by
    rw [Frame.drop, Frame.drop, ← h.columns, userColumns, userColumns, List.filter_filter, List.filter_filter]
    exact List.filter_congr (fun c _ => Bool.and_comm _ _)
  rows := h.rows.imp (fun _ _ hrow => hrow.mono (fun _ hc => (List.mem_filter.mp hc).1))
  nodup := h.nodup.filter _

theorem rename (h : Mirrors E L) {old new : String} (hold : old ∉ rowIdColumns)
    (hnew : new ∉ rowIdColumns) (hE : E.rename old new = some E') :
    ∃ L', L.rename old new = some L' ∧ Mirrors E' L' := by
  unfold Frame.rename at hE
  split at hE
  · rename_i hcolumns
    cases hE
    have hmem : old ∈ L.columns := (h.mem_iff.mp hcolumns.1).1
    have hnot : new ∉ L.columns := fun hin => hcolumns.2 (h.mem_iff.mpr ⟨hin, hnew⟩)
    refine ⟨_, by rw [Frame.rename, if_pos ⟨hmem, hnot⟩], h.mapRows ?_ ?_ (fun r l hrow => ?_)⟩
    · rw [← h.columns]
      generalize L.columns = columns
      induction columns with
      | nil => rfl
      | cons c columns ih =>
        rw [userColumns] at ih ⊢
        by_cases hc : c = old
        · simp only [userColumns, hc, List.map_cons, if_true, List.filter_cons, hold, hnew, not_false_eq_true,
            decide_true, ih]
        · by_cases hid : c ∈ rowIdColumns
          · simp only [userColumns, hc, List.map_cons, if_false, List.filter_cons, hid, not_true_eq_false,
              decide_false, Bool.false_eq_true, ih]
          · simp only [userColumns, hc, List.map_cons, if_false, List.filter_cons, hid, not_false_eq_true,
              decide_true, if_true, ih]
    · refine h.nodup.map_on (fun c hc c' hc' heq => ?_)
      by_cases hcold : c = old
      · by_cases hcold' : c' = old
        · rw [hcold, hcold']
        · rw [if_pos hcold, if_neg hcold'] at heq
          exact absurd (heq ▸ hc') hnot
      · by_cases hcold' : c' = old
        · rw [if_neg hcold, if_pos hcold'] at heq
          exact absurd (heq ▸ hc) hnot
        · rwa [if_neg hcold, if_neg hcold'] at heq
    · rw [hrow old hcolumns.1]
      intro c hc
      obtain ⟨c', hc', rfl⟩ := List.mem_map.mp hc
      by_cases hcold : c' = old
      · rw [if_pos hcold, Function.update_self, Function.update_self]
      · rw [if_neg hcold]
        exact agrees_update_mem hrow new _ c' hc'
  · cases hE

theorem explode [ColumnValue V] (h : Mirrors E L) {E' : Frame V}
    (hE : E.explode name = some E') : ∃ L', L.explode name = some L' ∧ Mirrors E' L' := by
  unfold Frame.explode at hE
  split at hE
  · rename_i hmem
    cases hE
    refine ⟨_, by rw [Frame.explode, if_pos (h.mem_iff.mp hmem).1], h.withRows ?_⟩
    refine List.rel_flatMap h.rows (fun r l hrow => ?_)
    rw [hrow name hmem, List.forall₂_map_left_iff, List.forall₂_map_right_iff, List.forall₂_same]
    exact fun cell _ => agrees_update_mem hrow name cell
  · cases hE

theorem dropNulls (h : Mirrors E L) (hname : name ∈ E.columns) :
    Mirrors (E.dropNulls name) (L.dropNulls name) :=
  h.filterRows (fun r l hrow => by rw [hrow name hname])

theorem explode_columns [ColumnValue V] {f g : Frame V} (h : f.explode name = some g) :
    g.columns = f.columns ∧ name ∈ f.columns := by
  unfold Frame.explode at h
  split at h
  · rename_i hmem
    cases h
    exact ⟨rfl, hmem⟩
  · cases h

theorem map_eval_eq {es : List (RowExpr V)} (hroots : ∀ e ∈ es, e.roots ⊆ columns)
    (h : Agrees columns r l) : es.map (fun e => e.eval l) = es.map (fun e => e.eval r) :=
  List.map_congr_left (fun e he => eval_eq (hroots e he) h)

end Mirrors

end Lineage

end Fenic
