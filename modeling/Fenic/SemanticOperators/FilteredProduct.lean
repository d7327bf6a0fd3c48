import Fenic.SemanticOperators.JoinFrames

/-!
# `SemanticOperators.FilteredProduct` — when a semantic join is the filtered product

Answers stay with their pairs, whatever nulls and duplicates there are. What can go wrong is in the names: a column with the
name of a helper column makes a step fail or is lost (`SemanticJoin.NamesApart`). Besides, a pair whose document is empty is
not asked about, and the engine may refuse to filter if no pair has an answer.
-/

namespace Fenic

namespace SemanticOperators

open Lineage (Cell Row Frame RowExpr)

variable {V : Type}

/-! ## Keys and cells -/

section Keys

variable {col : RowExpr V} {aliasName : String} {columns : List String}

theorem mem_normalColumns (hroots : col.roots ⊆ columns) {c : String} :
    c ∈ normalColumns col aliasName columns ↔ c = aliasName ∨ c ∈ otherColumns col columns := by
  cases col with
  | column key =>
    have hkey : key ∈ columns := hroots (List.mem_singleton.mpr rfl)
    rw [mem_otherColumns]
    constructor
    · intro hc
      obtain ⟨c', hc', rfl⟩ := List.mem_map.mp hc
      split
      · exact .inl rfl
      · case isFalse hne => exact .inr ⟨hc', fun h => hne (Option.some.inj h).symm⟩
    · rintro (rfl | ⟨hc, hne⟩)
      · exact List.mem_map.mpr ⟨key, hkey, if_pos rfl⟩
      · exact List.mem_map.mpr ⟨c, hc, if_neg fun h => hne (congrArg some h.symm)⟩
  | computed name roots eval reads =>
    simp [normalColumns, columnName, or_comm]

theorem normalColumns_nodup (hcolumns : columns.Nodup) (halias : aliasName ∉ otherColumns col columns) :
    (normalColumns col aliasName columns).Nodup := by
  cases col with
  | column key =>
    have hkeep : ∀ c ∈ columns, c ≠ key → c ≠ aliasName := by
      rintro c hc hne rfl
      exact halias (mem_otherColumns.mpr ⟨hc, fun h : some key = some c => hne (Option.some.inj h).symm⟩)
    apply hcolumns.map_on
    intro c hc c' hc' heq
    by_cases hck : c = key <;> by_cases hck' : c' = key
    · rw [hck, hck']
    · rw [if_pos hck, if_neg hck'] at heq
      exact absurd heq.symm (hkeep c' hc' hck')
    · rw [if_neg hck, if_pos hck'] at heq
      exact absurd heq (hkeep c hc hck)
    · rwa [if_neg hck, if_neg hck'] at heq
  | computed name roots eval reads =>
    have hnew : aliasName ∉ columns := fun hmem => halias (mem_otherColumns.mpr ⟨hmem, nofun⟩)
    apply hcolumns.append (List.nodup_singleton _)
    intro c hc hin
    cases List.mem_singleton.mp hin
    exact hnew hc

theorem restoreRow_of_ne {m : Row V} {c : String} (h : columnName col ≠ some c) : restoreRow col aliasName m c = m c := by
  cases col with
  | column key => exact Function.update_of_ne (fun heq => h (congrArg some heq.symm)) _ m
  | computed _ _ _ _ => rfl

/-- The key cell of a row is back under its own name. -/
theorem restoreRow_cells (hroots : col.roots ⊆ columns) (halias : aliasName ∉ otherColumns col columns) {r m : Row V}
    (hm : ∀ c ∈ normalColumns col aliasName columns, m c = Function.update r aliasName (col.eval r) c) :
    ∀ c ∈ columns, restoreRow col aliasName m c = r c := by
  intro c hc
  by_cases hkey : columnName col = some c
  · cases col with
    | column key =>
      cases hkey
      show Function.update m c (m aliasName) c = r c
      rw [Function.update_self, hm aliasName ((mem_normalColumns hroots).mpr (.inl rfl)), Function.update_self]
      rfl
    | computed _ _ _ _ => cases hkey
  · have hother : c ∈ otherColumns col columns := mem_otherColumns.mpr ⟨hc, hkey⟩
    have hne : c ≠ aliasName := fun h => halias (h ▸ hother)
    rw [restoreRow_of_ne hkey, hm c ((mem_normalColumns hroots).mpr (.inr hother)), Function.update_of_ne hne]

end Keys

/-- The cells of a pair after the joins on the row numbers. -/
theorem joinedPair_cells (model : JoinModel V) (strict : Bool) {left right : List String} (l r : Row V)
    (hnodup : (left ++ right).Nodup) (hleftId : leftIdKey ∉ left ++ right) (hrightId : rightIdKey ∉ left ++ right) :
    (∀ c ∈ left, Join.joinedPair model strict left right (l, r) c = l c) ∧
      ∀ c ∈ right, Join.joinedPair model strict left right (l, r) c = r c := by
  have hne : ∀ {c}, c ∈ left ++ right → c ≠ leftIdKey ∧ c ≠ rightIdKey :=
    fun hc => ⟨fun h => hleftId (h ▸ hc), fun h => hrightId (h ▸ hc)⟩
  constructor
  · intro c hc
    obtain ⟨hneLeft, hneRight⟩ := hne (List.mem_append_left _ hc)
    simp [Join.joinedPair, joinedRow, hc, hneLeft, hneRight]
  · intro c hc
    obtain ⟨hneLeft, hneRight⟩ := hne (List.mem_append_right _ hc)
    have hnot : c ∉ left := fun hin => (List.nodup_append.mp hnodup).2.2 c hin c hc rfl
    simp [Join.joinedPair, joinedRow, hc, hneLeft, hneRight, hnot]

/-- A row whose key has its alias, with its number. -/
def sideRow (col : RowExpr V) (aliasName idKey : String) (entry : Row V × Nat) : Row V :=
  Function.update (Function.update entry.1 aliasName (col.eval entry.1)) idKey (.rowId entry.2)

theorem sideRow_of_ne {col : RowExpr V} {aliasName idKey : String} {entry : Row V × Nat} {c : String} (h : c ≠ idKey) :
    sideRow col aliasName idKey entry c = Function.update entry.1 aliasName (col.eval entry.1) c :=
  Function.update_of_ne h _ _

theorem indexed_normalFrame (col : RowExpr V) (aliasName idKey : String) (df : Frame V) :
    (Join.indexed idKey (normalFrame col aliasName df)).rows = df.rows.zipIdx.map (sideRow col aliasName idKey) := by
  show ((df.rows.map _).zipIdx.map _) = _
  rw [List.zipIdx_map, List.map_map]
  rfl

namespace SemanticJoin

variable [DecidableEq V] {model : JoinModel V} {join : SemanticJoin V}

/-! ## Names -/

/-- The key columns have names, and no other column has the name of a helper column that it meets. -/
structure NamesApart (join : SemanticJoin V) : Prop where
  leftOn : leftOnKey ∈ join.left.columns ++ join.right.columns →
    columnName join.leftOn = some leftOnKey ∨ columnName join.rightOn = some leftOnKey
  rightOn : rightOnKey ∈ join.left.columns ++ join.right.columns → columnName join.rightOn = some rightOnKey
  named : columnName join.leftOn ≠ some "" ∧ columnName join.rightOn ≠ some ""
  leftId : leftIdKey ∉ otherColumns join.leftOn join.left.columns
  rightId : rightIdKey ∉ otherColumns join.rightOn join.right.columns
  ids : join.left.rows ≠ [] → join.right.rows ≠ [] →
    rightIdKey ∉ otherColumns join.leftOn join.left.columns ∧ leftIdKey ∉ otherColumns join.rightOn join.right.columns

omit [DecidableEq V] in
theorem not_mem_both {c : String} (hl : c ∈ join.left.columns) (hr : c ∈ join.right.columns) : False :=
  (List.nodup_append.mp join.nodup).2.2 c hl c hr rfl

/-- A result with the columns of both sides tells the names apart. -/
theorem namesApart_of_columns {result : Frame V} (h : join.executeNode model = some result)
    (hcolumns : result.columns = join.left.columns ++ join.right.columns) : join.NamesApart := by
  obtain ⟨⟨leftDf, leftName⟩, hleft, h⟩ := Option.bind_eq_some_iff.mp h
  obtain ⟨⟨rightDf, rightName⟩, hright, h⟩ := Option.bind_eq_some_iff.mp h
  obtain ⟨joined, hjoined, h⟩ := Option.bind_eq_some_iff.mp h
  obtain ⟨restored, hrestored, hresult⟩ := Option.bind_eq_some_iff.mp h
  obtain ⟨rfl, hleftColumns⟩ := normalize_columns hleft
  obtain ⟨rfl, hrightColumns⟩ := normalize_columns hright
  obtain ⟨hleftId, hrightId, hfrom, hids⟩ := Join.execute_columns hjoined
  have hleftRows : leftDf.rows = [] ↔ join.left.rows = [] := normalize_rows hleft
  have hrightRows : rightDf.rows = [] ↔ join.right.rows = [] := normalize_rows hright
  -- where a column of the result comes from
  have horigin : ∀ c ∈ join.left.columns ++ join.right.columns,
      (columnName join.rightOn = some c ∧ c ≠ "") ∨
        (c ≠ rightOnKey ∧ ((columnName join.leftOn = some c ∧ c ≠ "") ∨ (c ≠ leftOnKey ∧ c ∈ joined.columns))) := by
    intro c hc
    rcases restore_columns hresult (hcolumns ▸ hc) with hname | ⟨hc, hne⟩
    · exact .inl hname
    · rcases restore_columns hrestored hc with hname | ⟨hc, hne'⟩
      · exact .inr ⟨hne, .inl hname⟩
      · exact .inr ⟨hne, .inr ⟨hne', hc⟩⟩
  have hleftMem : ∀ {c}, columnName join.leftOn = some c → c ∈ join.left.columns := columnName_mem join.leftOn_roots
  have hrightMem : ∀ {c}, columnName join.rightOn = some c → c ∈ join.right.columns := columnName_mem join.rightOn_roots
  -- the empty name counts as none, so a key does not get it back
  have hunnamed : "" ∈ join.left.columns ++ join.right.columns →
      "" ∈ otherColumns join.leftOn join.left.columns ∨ "" ∈ otherColumns join.rightOn join.right.columns := by
    intro hc
    rcases horigin _ hc with ⟨-, hne⟩ | ⟨-, ⟨-, hne⟩ | ⟨-, hin⟩⟩
    · exact absurd rfl hne
    · exact absurd rfl hne
    · rcases hfrom _ hin with hin | hin | ⟨name, hname⟩
      · exact .inl (((hleftColumns _).mp hin).resolve_left (by decide))
      · exact .inr (((hrightColumns _).mp hin).resolve_left (by decide))
      · have hempty : "".length = 0 := rfl
        have hsuffix : "_right".length = 6 := rfl
        have hlength : "".length = name.length + "_right".length := by rw [← String.length_append, ← hname]
        omega
  refine ⟨?_, ?_, ?_, ?_, ?_, ?_⟩
  · intro hc
    rcases horigin _ hc with ⟨hname, -⟩ | ⟨-, ⟨hname, -⟩ | ⟨hne, -⟩⟩
    · exact .inr hname
    · exact .inl hname
    · exact absurd rfl hne
  · intro hc
    rcases horigin _ hc with ⟨hname, -⟩ | ⟨hne, -⟩
    · exact hname
    · exact absurd rfl hne
  · constructor
    · intro hname
      rcases hunnamed (List.mem_append_left _ (hleftMem hname)) with hother | hother
      · exact (mem_otherColumns.mp hother).2 hname
      · exact not_mem_both (hleftMem hname) (mem_otherColumns.mp hother).1
    · intro hname
      rcases hunnamed (List.mem_append_right _ (hrightMem hname)) with hother | hother
      · exact not_mem_both (mem_otherColumns.mp hother).1 (hrightMem hname)
      · exact (mem_otherColumns.mp hother).2 hname
  · intro hmem
    exact hleftId ((hleftColumns _).mpr (.inr hmem))
  · intro hmem
    exact hrightId ((hrightColumns _).mpr (.inr hmem))
  · intro hl hr
    obtain ⟨hleftIds, hrightIds⟩ := hids (fun h => hl (hleftRows.mp h)) (fun h => hr (hrightRows.mp h))
    constructor
    · intro hmem
      obtain ⟨hc, hnot⟩ := mem_otherColumns.mp hmem
      rcases horigin _ (List.mem_append_left _ hc) with ⟨hname, -⟩ | ⟨-, ⟨hname, -⟩ | ⟨-, hin⟩⟩
      · exact not_mem_both hc (hrightMem hname)
      · exact hnot hname
      · exact hrightIds hin
    · intro hmem
      obtain ⟨hc, hnot⟩ := mem_otherColumns.mp hmem
      rcases horigin _ (List.mem_append_right _ hc) with ⟨hname, -⟩ | ⟨-, ⟨hname, -⟩ | ⟨-, hin⟩⟩
      · exact hnot hname
      · exact not_mem_both (hleftMem hname) hc
      · exact hleftIds hin

/-! ## The result -/

namespace NamesApart

variable (h : join.NamesApart)
include h

omit [DecidableEq V] in
theorem leftOn_other : leftOnKey ∉ otherColumns join.leftOn join.left.columns := by
  intro hmem
  obtain ⟨hc, hnot⟩ := mem_otherColumns.mp hmem
  rcases h.leftOn (List.mem_append_left _ hc) with hname | hname
  · exact hnot hname
  · exact not_mem_both hc (columnName_mem join.rightOn_roots hname)

omit [DecidableEq V] in
theorem rightOn_other : rightOnKey ∉ otherColumns join.rightOn join.right.columns := by
  intro hmem
  obtain ⟨hc, hnot⟩ := mem_otherColumns.mp hmem
  exact hnot (h.rightOn (List.mem_append_right _ hc))

omit [DecidableEq V] in
theorem leftOn_right : leftOnKey ∉ normalColumns join.rightOn rightOnKey join.right.columns := by
  intro hmem
  rcases (mem_normalColumns join.rightOn_roots).mp hmem with heq | hother
  · exact absurd heq (by decide)
  · obtain ⟨hc, hnot⟩ := mem_otherColumns.mp hother
    rcases h.leftOn (List.mem_append_right _ hc) with hname | hname
    · exact not_mem_both (columnName_mem join.leftOn_roots hname) hc
    · exact hnot hname

omit [DecidableEq V] in
theorem rightOn_left : rightOnKey ∉ join.left.columns :=
  fun hc => not_mem_both hc (columnName_mem join.rightOn_roots (h.rightOn (List.mem_append_left _ hc)))

omit [DecidableEq V] in
/-- The name of the left key is free on the right. -/
theorem leftName_right {name : String} (hname : columnName join.leftOn = some name) :
    name ∉ normalColumns join.rightOn rightOnKey join.right.columns := by
  have hleft := columnName_mem join.leftOn_roots hname
  intro hmem
  rcases (mem_normalColumns join.rightOn_roots).mp hmem with rfl | hother
  · exact h.rightOn_left hleft
  · exact not_mem_both hleft (mem_otherColumns.mp hother).1

omit [DecidableEq V] in
/-- The columns of both sides with their aliases. -/
theorem normal_nodup : (normalColumns join.leftOn leftOnKey join.left.columns ++
    normalColumns join.rightOn rightOnKey join.right.columns).Nodup := by
  obtain ⟨hleft, hright, -⟩ := List.nodup_append.mp join.nodup
  apply (normalColumns_nodup hleft h.leftOn_other).append (normalColumns_nodup hright h.rightOn_other)
  intro c hl hr
  rcases (mem_normalColumns join.leftOn_roots).mp hl with rfl | hl
  · exact h.leftOn_right hr
  · have hl := (mem_otherColumns.mp hl).1
    rcases (mem_normalColumns join.rightOn_roots).mp hr with rfl | hr
    · exact h.rightOn_left hl
    · exact not_mem_both hl (mem_otherColumns.mp hr).1

theorem executeNode_bind : join.executeNode model =
    (Join.execute model join.strict (normalFrame join.leftOn leftOnKey join.left)
      (normalFrame join.rightOn rightOnKey join.right)).bind fun result =>
        (restoreColumnAfterJoin result (columnName join.leftOn) leftOnKey).bind fun result =>
          restoreColumnAfterJoin result (columnName join.rightOn) rightOnKey := by
  unfold executeNode
  rw [normalize_eq join.leftOn_roots h.leftOn_other, Option.bind_some]
  dsimp only
  rw [normalize_eq join.rightOn_roots h.rightOn_other, Option.bind_some]

/-- The join of the sides with their aliases decides; then the keys get their names again. -/
theorem executeNode_eq {joined : Frame V}
    (hjoined : Join.execute model join.strict (normalFrame join.leftOn leftOnKey join.left)
      (normalFrame join.rightOn rightOnKey join.right) = some joined)
    (hcolumns : joined.columns = normalColumns join.leftOn leftOnKey join.left.columns ++
      normalColumns join.rightOn rightOnKey join.right.columns) :
    join.executeNode model = some ⟨join.left.columns ++ join.right.columns,
      (joined.rows.map (restoreRow join.leftOn leftOnKey)).map (restoreRow join.rightOn rightOnKey)⟩ := by
  obtain ⟨columns, rows⟩ := joined
  cases hcolumns
  have hleft : restoreColumnAfterJoin ⟨normalColumns join.leftOn leftOnKey join.left.columns ++
      normalColumns join.rightOn rightOnKey join.right.columns, rows⟩ (columnName join.leftOn) leftOnKey =
      some ⟨join.left.columns ++ normalColumns join.rightOn rightOnKey join.right.columns,
        rows.map (restoreRow join.leftOn leftOnKey)⟩ :=
    restore_eq [] _ join.leftOn_roots h.named.1 h.leftOn_other (List.not_mem_nil) h.leftOn_right
      fun name hname => ⟨List.not_mem_nil, h.leftName_right hname⟩
  have hright : restoreColumnAfterJoin ⟨join.left.columns ++ normalColumns join.rightOn rightOnKey join.right.columns,
      rows.map (restoreRow join.leftOn leftOnKey)⟩ (columnName join.rightOn) rightOnKey =
      some ⟨join.left.columns ++ join.right.columns,
        (rows.map (restoreRow join.leftOn leftOnKey)).map (restoreRow join.rightOn rightOnKey)⟩ := by
    rw [← List.append_nil (join.left.columns ++ normalColumns join.rightOn rightOnKey join.right.columns),
      ← List.append_nil (join.left.columns ++ join.right.columns)]
    exact restore_eq join.left.columns [] join.rightOn_roots h.named.2 h.rightOn_other h.rightOn_left List.not_mem_nil
      fun name hname => ⟨fun hl => not_mem_both hl (columnName_mem join.rightOn_roots hname), List.not_mem_nil⟩
  rw [h.executeNode_bind, hjoined, Option.bind_some]
  exact Option.bind_eq_some_iff.mpr ⟨_, hleft, hright⟩

end NamesApart

/-- The row of a pair, with the names of both sides. -/
def resultRow (model : JoinModel V) (join : SemanticJoin V) (entry : (Row V × Nat) × (Row V × Nat)) : Row V :=
  restoreRow join.rightOn rightOnKey (restoreRow join.leftOn leftOnKey (Join.joinedPair model join.strict
    (normalColumns join.leftOn leftOnKey join.left.columns) (normalColumns join.rightOn rightOnKey join.right.columns)
    (sideRow join.leftOn leftOnKey leftIdKey entry.1, sideRow join.rightOn rightOnKey rightIdKey entry.2)))

omit [DecidableEq V] in
theorem pairOutcome_sideRow (entry : (Row V × Nat) × (Row V × Nat)) :
    Join.pairOutcome model join.strict
        (sideRow join.leftOn leftOnKey leftIdKey entry.1, sideRow join.rightOn rightOnKey rightIdKey entry.2) =
      join.outcome model entry.1.1 entry.2.1 := by
  show model.prediction (model.document join.strict (sideRow join.leftOn leftOnKey leftIdKey entry.1 leftOnKey)
    (sideRow join.rightOn rightOnKey rightIdKey entry.2 rightOnKey)) = _
  rfl

omit [DecidableEq V] in
/-- The pairs of rows under their aliases, with their numbers. -/
theorem indexed_product :
    (Join.indexed leftIdKey (normalFrame join.leftOn leftOnKey join.left)).rows ×ˢ
        (Join.indexed rightIdKey (normalFrame join.rightOn rightOnKey join.right)).rows =
      (join.left.rows.zipIdx ×ˢ join.right.rows.zipIdx).map
        (Prod.map (sideRow join.leftOn leftOnKey leftIdKey) (sideRow join.rightOn rightOnKey rightIdKey)) := by
  rw [indexed_normalFrame, indexed_normalFrame, EquiJoin.product_map]

theorem product_zipIdx {α β : Type} (xs : List α) (ys : List β) :
    xs ×ˢ ys = (xs.zipIdx ×ˢ ys.zipIdx).map fun entry => (entry.1.1, entry.2.1) := by
  have hfst := EquiJoin.product_map Prod.fst Prod.fst xs.zipIdx ys.zipIdx
  rwa [List.zipIdx_map_fst, List.zipIdx_map_fst] at hfst

namespace NamesApart

variable (h : join.NamesApart) (hl : join.left.rows ≠ []) (hr : join.right.rows ≠ [])
include h hl hr

omit [DecidableEq V] in
theorem leftId_normal : leftIdKey ∉ normalColumns join.leftOn leftOnKey join.left.columns ++
    normalColumns join.rightOn rightOnKey join.right.columns := by
  intro hmem
  rcases List.mem_append.mp hmem with hmem | hmem
  · exact h.leftId (((mem_normalColumns join.leftOn_roots).mp hmem).resolve_left (by decide))
  · exact (h.ids hl hr).2 (((mem_normalColumns join.rightOn_roots).mp hmem).resolve_left (by decide))

omit [DecidableEq V] in
theorem rightId_normal : rightIdKey ∉ normalColumns join.leftOn leftOnKey join.left.columns ++
    normalColumns join.rightOn rightOnKey join.right.columns := by
  intro hmem
  rcases List.mem_append.mp hmem with hmem | hmem
  · exact (h.ids hl hr).1 (((mem_normalColumns join.leftOn_roots).mp hmem).resolve_left (by decide))
  · exact h.rightId (((mem_normalColumns join.rightOn_roots).mp hmem).resolve_left (by decide))

omit [DecidableEq V] in
/-- The row of a pair has the cells of both. -/
theorem resultRow_cells (entry : (Row V × Nat) × (Row V × Nat)) :
    (join.left.columns ++ join.right.columns).map (resultRow model join entry) = join.tuple (entry.1.1, entry.2.1) := by
  obtain ⟨hleft, hright⟩ := joinedPair_cells model join.strict (sideRow join.leftOn leftOnKey leftIdKey entry.1)
    (sideRow join.rightOn rightOnKey rightIdKey entry.2) h.normal_nodup (h.leftId_normal hl hr) (h.rightId_normal hl hr)
  rw [List.map_append]
  congr 1
  · apply List.map_congr_left
    intro c hc
    have hname : columnName join.rightOn ≠ some c := fun hname => not_mem_both hc (columnName_mem join.rightOn_roots hname)
    rw [resultRow, restoreRow_of_ne hname]
    refine restoreRow_cells join.leftOn_roots h.leftOn_other (r := entry.1.1) (fun c hc => ?_) c hc
    have hne : c ≠ leftIdKey := fun heq => h.leftId_normal hl hr (List.mem_append_left _ (heq ▸ hc))
    rw [hleft c hc, sideRow_of_ne hne]
  · apply List.map_congr_left
    refine restoreRow_cells join.rightOn_roots h.rightOn_other (r := entry.2.1) fun c hc => ?_
    have hname : columnName join.leftOn ≠ some c := fun hname => h.leftName_right hname hc
    have hne : c ≠ rightIdKey := fun heq => h.rightId_normal hl hr (List.mem_append_right _ (heq ▸ hc))
    rw [restoreRow_of_ne hname, hright c hc, sideRow_of_ne hne]

omit hl hr in
/-- A side without rows gives no rows. -/
theorem executeNode_of_empty (hempty : join.left.rows = [] ∨ join.right.rows = []) :
    join.executeNode model = some ⟨join.left.columns ++ join.right.columns, []⟩ := by
  have hrows : (normalFrame join.leftOn leftOnKey join.left).rows = [] ∨
      (normalFrame join.rightOn rightOnKey join.right).rows = [] :=
    hempty.imp List.map_eq_nil_iff.mpr List.map_eq_nil_iff.mpr
  have hleftId : leftIdKey ∉ normalColumns join.leftOn leftOnKey join.left.columns := fun hmem =>
    h.leftId (((mem_normalColumns join.leftOn_roots).mp hmem).resolve_left (by decide))
  have hrightId : rightIdKey ∉ normalColumns join.rightOn rightOnKey join.right.columns := fun hmem =>
    h.rightId (((mem_normalColumns join.rightOn_roots).mp hmem).resolve_left (by decide))
  exact h.executeNode_eq (Join.execute_of_empty hleftId hrightId h.normal_nodup hrows) rfl

/-- The result of sides that are not empty: the pairs with a true outcome. -/
theorem executeNode_of_ne (model : JoinModel V) : join.executeNode model =
    if ((join.left.rows ×ˢ join.right.rows).all fun pair => (join.outcome model pair.1 pair.2).isNone) && !model.filtersByNulls
      then none
    else some ⟨join.left.columns ++ join.right.columns, ((join.left.rows.zipIdx ×ˢ join.right.rows.zipIdx).filter fun entry =>
      (join.outcome model entry.1.1 entry.2.1).isTrue).map (resultRow model join)⟩ := by
  have hl' : (normalFrame join.leftOn leftOnKey join.left).rows ≠ [] := fun h => hl (List.map_eq_nil_iff.mp h)
  have hr' : (normalFrame join.rightOn rightOnKey join.right).rows ≠ [] := fun h => hr (List.map_eq_nil_iff.mp h)
  have hexecute := Join.execute_eq model join.strict (h.leftId_normal hl hr) (h.rightId_normal hl hr) h.normal_nodup hl' hr'
  have hall : (((Join.indexed leftIdKey (normalFrame join.leftOn leftOnKey join.left)).rows ×ˢ
      (Join.indexed rightIdKey (normalFrame join.rightOn rightOnKey join.right)).rows).all fun pair =>
        (Join.pairOutcome model join.strict pair).isNone) =
      (join.left.rows ×ˢ join.right.rows).all fun pair => (join.outcome model pair.1 pair.2).isNone := by
    rewrite [indexed_product, product_zipIdx join.left.rows, List.all_map, List.all_map]
    exact congrArg (List.all _) (funext fun entry => congrArg PyValue.isNone (pairOutcome_sideRow entry))
  have hfilter : ((((Join.indexed leftIdKey (normalFrame join.leftOn leftOnKey join.left)).rows ×ˢ
      (Join.indexed rightIdKey (normalFrame join.rightOn rightOnKey join.right)).rows).filter fun pair =>
        (Join.pairOutcome model join.strict pair).isTrue)) =
      ((join.left.rows.zipIdx ×ˢ join.right.rows.zipIdx).filter fun entry =>
        (join.outcome model entry.1.1 entry.2.1).isTrue).map
          (Prod.map (sideRow join.leftOn leftOnKey leftIdKey) (sideRow join.rightOn rightOnKey rightIdKey)) := by
    rewrite [indexed_product, List.filter_map]
    exact congrArg (List.map _) (List.filter_congr fun entry _ => congrArg PyValue.isTrue (pairOutcome_sideRow entry))
  rw [hall, hfilter, List.map_map] at hexecute
  split
  · case isTrue hnone =>
      rw [h.executeNode_bind, hexecute, if_pos hnone, Option.bind_none]
  · case isFalse hsome =>
      rw [if_neg hsome] at hexecute
      rw [h.executeNode_eq hexecute rfl, List.map_map, List.map_map]
      rfl

theorem tuples_of_ne {result : Frame V} (hresult : join.executeNode model = some result) :
    result.columns = join.left.columns ++ join.right.columns ∧
      result.tuples = ((join.left.rows ×ˢ join.right.rows).filter fun pair =>
        (join.outcome model pair.1 pair.2).isTrue).map join.tuple := by
  rw [h.executeNode_of_ne hl hr model] at hresult
  obtain ⟨-, hresult⟩ := Option.ite_none_left_eq_some.mp hresult
  cases Option.some.inj hresult
  refine ⟨rfl, ?_⟩
  rw [product_zipIdx join.left.rows, List.filter_map, List.map_map]
  show List.map _ (List.map _ _) = _
  rw [List.map_map]
  apply List.map_congr_left
  intro entry _
  exact h.resultRow_cells hl hr entry

end NamesApart

/-! ## The filtered product -/

omit [DecidableEq V] in
/-- An empty document is not asked about, so the predicate cannot be true for it. -/
theorem isTrue_outcome (l r : Row V) :
    (join.outcome model l r).isTrue = true ↔ join.isMatch model l r = true ∧ join.document model l r ≠ some "" := by
  unfold outcome isMatch
  cases hdocument : join.document model l r with
  | none => simp [PyValue.isTrue]
  | some document =>
    by_cases hempty : document = ""
    · subst hempty
      simp [PyValue.isTrue]
    · rw [prediction_some model hempty]
      simp [hempty, holds]

omit [DecidableEq V] in
theorem filteredProduct_eq : join.filteredProduct model =
    ((((join.left.rows ×ˢ join.right.rows).filter fun pair => join.isMatch model pair.1 pair.2).map join.tuple :
      List (List (Cell V))) : Multiset (List (Cell V))) := by
  rw [filteredProduct, EquiJoin.inner_product, Multiset.map_coe]

/-- **A semantic join is the filtered product exactly if the names are apart and, with rows on both sides, the engine can filter
    by the outcomes and the predicate is true for no empty document.** -/
theorem executeNode_filteredProduct_iff (model : JoinModel V) (join : SemanticJoin V) :
    (∃ result, join.executeNode model = some result ∧ join.IsFilteredProduct model result) ↔
      join.NamesApart ∧ (join.left.rows = [] ∨ join.right.rows = [] ∨
        (model.filtersByNulls = true ∨
          ∃ l ∈ join.left.rows, ∃ r ∈ join.right.rows, (join.outcome model l r).isNone = false) ∧
        ∀ l ∈ join.left.rows, ∀ r ∈ join.right.rows, join.isMatch model l r = true → join.document model l r ≠ some "") := by
  constructor
  · rintro ⟨result, hresult, hcolumns, hrows⟩
    have hnames : join.NamesApart := namesApart_of_columns hresult hcolumns
    refine ⟨hnames, ?_⟩
    by_cases hl : join.left.rows = []
    · exact .inl hl
    by_cases hr : join.right.rows = []
    · exact .inr (.inl hr)
    refine .inr (.inr ⟨?_, ?_⟩)
    · rw [hnames.executeNode_of_ne hl hr model] at hresult
      obtain ⟨hfilters, -⟩ := Option.ite_none_left_eq_some.mp hresult
      cases hnulls : model.filtersByNulls with
      | true => exact .inl rfl
      | false =>
        rw [hnulls, Bool.not_false, Bool.and_true, Bool.not_eq_true, List.all_eq_false] at hfilters
        obtain ⟨⟨l, r⟩, hmem, houtcome⟩ := hfilters
        obtain ⟨hleft, hright⟩ := List.mem_product.mp hmem
        exact .inr ⟨l, hleft, r, hright, Bool.not_eq_true _ |>.mp houtcome⟩
    · -- the true outcomes are as many as the pairs that match
      rw [(hnames.tuples_of_ne hl hr hresult).2, filteredProduct_eq] at hrows
      have hlength := congrArg Multiset.card hrows
      rw [Multiset.coe_card, Multiset.coe_card, List.length_map, List.length_map] at hlength
      intro l hleft r hright hmatch
      have houtcome := Rows.of_length_filter_eq (fun pair _ htrue => ((isTrue_outcome pair.1 pair.2).mp htrue).1) hlength
        (List.mem_product.mpr ⟨hleft, hright⟩) hmatch
      exact ((isTrue_outcome l r).mp houtcome).2
  · rintro ⟨hnames, hcases⟩
    by_cases hempty : join.left.rows = [] ∨ join.right.rows = []
    · refine ⟨_, hnames.executeNode_of_empty hempty, rfl, ?_⟩
      rw [filteredProduct_eq]
      rcases hempty with hempty | hempty
      · rw [hempty, List.nil_product]
        rfl
      · rw [hempty, List.product_nil]
        rfl
    · obtain ⟨hl, hr⟩ := not_or.mp hempty
      obtain ⟨hfilters, hdocuments⟩ := (hcases.resolve_left hl).resolve_left hr
      have hnot : ¬ (((join.left.rows ×ˢ join.right.rows).all fun pair => (join.outcome model pair.1 pair.2).isNone) &&
          !model.filtersByNulls) = true := by
        rintro hnone
        obtain ⟨hall, hnulls⟩ := Bool.and_eq_true_iff.mp hnone
        rcases hfilters with htrue | ⟨l, hleft, r, hright, houtcome⟩
        · simp [htrue] at hnulls
        · have hisNone := List.all_eq_true.mp hall (l, r) (List.mem_product.mpr ⟨hleft, hright⟩)
          exact Bool.false_ne_true (houtcome.symm.trans hisNone)
      have hresult := hnames.executeNode_of_ne hl hr model
      rw [if_neg hnot] at hresult
      obtain ⟨hcolumns, htuples⟩ := hnames.tuples_of_ne hl hr hresult
      refine ⟨_, hresult, hcolumns, ?_⟩
      rw [htuples, filteredProduct_eq]
      congr 2
      apply List.filter_congr
      rintro ⟨l, r⟩ hmem
      obtain ⟨hleft, hright⟩ := List.mem_product.mp hmem
      rw [Bool.eq_iff_iff, isTrue_outcome]
      exact ⟨And.left, fun hmatch => ⟨hmatch, hdocuments l hleft r hright hmatch⟩⟩

/-- A model for which every predicate is true. -/
def agreeingModel : JoinModel String where
  render := fun _ _ _ => some "?"
  depth := 1
  answer := fun _ => some (pyString "\x7b\"output\":true\x7d")
  output_isBool := by
    intro _ data h
    have houtput : (outputOf 1 (some (pyString "\x7b\"output\":true\x7d"))).map PyValue.isBool = some true := by decide +kernel
    rw [h] at houtput
    exact Option.some.inj houtput
  filtersByNulls := true

/-- A join of `text` with `label`, where the left side has a column `right_on` of its own. -/
def noteJoin : SemanticJoin String where
  leftOn := .column "text"
  rightOn := .column "label"
  strict := true
  left := ⟨["text", "right_on"], [fun _ => .val "a"]⟩
  right := ⟨["label"], [fun _ => .val "b"]⟩
  leftOn_roots := by decide
  rightOn_roots := by decide
  nodup := by decide

/-- The column `right_on` of the left side does not come back. -/
theorem noteJoin_not_filteredProduct :
    ¬ ∃ result, noteJoin.executeNode agreeingModel = some result ∧ noteJoin.IsFilteredProduct agreeingModel result := by
  rintro ⟨result, hresult, hcolumns, -⟩
  have hname := (namesApart_of_columns hresult hcolumns).rightOn (by decide)
  exact absurd (Option.some.inj hname) (by decide)

end SemanticJoin

end SemanticOperators

end Fenic
