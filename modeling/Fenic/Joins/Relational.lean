import Fenic.Joins.Join
import Fenic.Lib.EquiJoin

/-!
# `Joins.Relational` — joins are the relational joins of their schema

The rows of a join are those of the relational join of its type (`Join.rows`), each with the cells of the columns of the
schema (`Join.tuple`): a column of the primary side has the cell of the primary row. `JoinExec` pairs the positions of the
rows, and leaves out columns by the engine's rule: `joinPairs_rows` says that the pairs are those of the relational join,
and `executeNode_relational_iff` when the columns are those of the schema.
-/

namespace Fenic

namespace Joins

open Lineage (Cell Row Frame RowExpr JoinHow)

variable {V : Type}

/-! ## The relational join -/

/-- The rows have equal keys, none of them null. -/
def keysEqual [DecidableEq V] (leftOn rightOn : List (RowExpr V)) (l r : Row V) : Bool :=
  Lineage.keysMatch (Lineage.groupKey leftOn l) (Lineage.groupKey rightOn r)

namespace Join

/-- The pairs of rows of the relational join; a cross join has no keys. -/
def rows [DecidableEq V] (join : Join V) (left right : List (Row V)) : Multiset (Option (Row V) × Option (Row V)) :=
  let leftOn := join.leftOn.map JoinKey.convert
  let rightOn := join.rightOn.map JoinKey.convert
  match join.how with
  | .inner => EquiJoin.outer false false (keysEqual leftOn rightOn) left right
  | .left => EquiJoin.outer true false (keysEqual leftOn rightOn) left right
  | .right => EquiJoin.outer false true (keysEqual leftOn rightOn) left right
  | .full => EquiJoin.outer true true (keysEqual leftOn rightOn) left right
  | .cross => EquiJoin.outer false false (fun _ _ => true) left right

/-- The cell of a row, or null if there is no row. -/
def cellOf (name : String) (r : Option (Row V)) : Cell V := r.elim .null fun r => r name

/-- The cell of a column in a pair of rows. -/
def cell (join : Join V) (pair : Option (Row V) × Option (Row V)) (name : String) : Cell V :=
  if join.how = .right then
    if name ∈ join.right.columnNames then cellOf name pair.2 else cellOf name pair.1
  else if name ∈ join.left.columnNames then cellOf name pair.1 else cellOf name pair.2

/-- A pair of rows as a row of the schema. -/
def tuple (join : Join V) (pair : Option (Row V) × Option (Row V)) : List (Cell V) :=
  join.fields.columnNames.map (join.cell pair)

end Join

/-! ## Positions -/

/-- The rows at a pair of positions. -/
def rowsAt (left right : List (Row V)) (pair : (Option Nat × Option Nat) × Option V) : Option (Row V) × Option (Row V) :=
  (pair.1.1.bind fun i => left[i]?, pair.1.2.bind fun j => right[j]?)

section Positions

variable (p : List (Cell V) → List (Cell V) → Bool) (leftKey rightKey : Row V → List (Cell V)) (left right : List (Row V))

/-- The pairs of positions that match are those of the rows that match. -/
theorem matched_rows :
    ((left.map leftKey).zipIdx.flatMap fun (key, i) =>
      ((right.map rightKey).zipIdx.filter fun (key', _) => p key key').map fun (_, j) =>
        (((some i, some j), none) : (Option Nat × Option Nat) × Option V)).map (rowsAt left right) =
    (left.flatMap fun l => (right.filter fun r => p (leftKey l) (rightKey r)).map (Prod.mk l)).map
      fun q => (some q.1, some q.2) := by
  rw [List.map_flatMap, List.zipIdx_map (l := left), List.flatMap_map, List.map_flatMap]
  apply Rows.flatMap_zipIdx
  intro l i hl
  dsimp only [Prod.map, id]
  rw [List.zipIdx_map, List.filter_map, List.map_map, List.map_map, List.map_map]
  apply Rows.map_filter_zipIdx fun r => p (leftKey l) (rightKey r)
  intro r j hr
  show (left[i]?, right[j]?) = (some l, some r)
  rw [hl, hr]

/-- The positions on the left that match nothing are those of the rows that do not. -/
theorem lonelyLeft_rows :
    (((left.map leftKey).zipIdx.filter fun (key, _) => !(right.map rightKey).any (p key)).map
      fun (_, i) => (((some i, none), none) : (Option Nat × Option Nat) × Option V)).map (rowsAt left right) =
    (left.filter fun l => !right.any fun r => p (leftKey l) (rightKey r)).map fun l => (some l, none) := by
  rw [List.zipIdx_map, List.filter_map, List.map_map, List.map_map]
  simp only [List.any_map]
  apply Rows.map_filter_zipIdx fun l => !right.any fun r => p (leftKey l) (rightKey r)
  intro l i hl
  show (left[i]?, none) = (some l, none)
  rw [hl]

theorem lonelyRight_rows :
    (((right.map rightKey).zipIdx.filter fun (key, _) => !(left.map leftKey).any fun key' => p key' key).map
      fun (_, j) => (((none, some j), none) : (Option Nat × Option Nat) × Option V)).map (rowsAt left right) =
    (right.filter fun r => !left.any fun l => p (leftKey l) (rightKey r)).map fun r => (none, some r) := by
  rw [List.zipIdx_map, List.filter_map, List.map_map, List.map_map]
  simp only [List.any_map]
  apply Rows.map_filter_zipIdx fun r => !left.any fun l => p (leftKey l) (rightKey r)
  intro r j hr
  show (none, right[j]?) = (none, some r)
  rw [hr]

theorem cross_rows :
    ((left.map leftKey).zipIdx.flatMap fun (_, i) => (right.map rightKey).zipIdx.map fun (_, j) =>
      (((some i, some j), none) : (Option Nat × Option Nat) × Option V)).map (rowsAt left right) =
    (left.flatMap fun l => (right.filter fun _ => true).map (Prod.mk l)).map fun q => (some q.1, some q.2) := by
  rw [← matched_rows (fun _ _ => true) leftKey rightKey left right]
  simp only [List.filter_true]

end Positions

/-! ## Columns -/

namespace Join

/-- All keys are plain columns. -/
def AllColumns (join : Join V) : Prop := (join.leftOn ++ join.rightOn).all (fun key => key.columnName?.isSome) = true

instance (join : Join V) : Decidable join.AllColumns := inferInstanceAs (Decidable (_ = true))

/-- The keys that the engine merges are those that the schema merges: it takes a key at all, and none with an alias; it
    merges all keys of the secondary side by their kind, the schema those that have the name of a primary key. -/
def KeysAgree (join : Join V) : Prop :=
  join.how = .cross ∨
    join.on ≠ [] ∧ (∀ key ∈ join.leftOn ++ join.rightOn, key.hasAlias = false) ∧
      (join.how = .full ∨ (join.AllColumns ∧ join.secondaryNames ⊆ join.primaryNames) ∨
        (¬ join.AllColumns ∧ List.Disjoint join.left.columnNames join.right.columnNames))

/-- The key columns that the engine leaves out, of the secondary side. -/
def merged (join : Join V) : List String :=
  if join.how = .cross ∨ join.how = .full ∨ ¬ join.AllColumns then [] else join.secondaryNames

/-- The columns of the secondary side that the schema leaves out. -/
def Dropped (join : Join V) (name : String) : Prop :=
  join.how ≠ .cross ∧ join.how ≠ .full ∧ name ∈ join.primaryNames ∧ name ∈ join.secondaryNames

instance (join : Join V) (name : String) : Decidable (join.Dropped name) :=
  inferInstanceAs (Decidable (_ ∧ _))

theorem fields_columnNames (join : Join V) :
    join.fields.columnNames =
      if join.how = .right then join.secondary.columnNames.filter (fun c => ¬ join.Dropped c) ++ join.primary.columnNames
      else join.primary.columnNames ++ join.secondary.columnNames.filter fun c => ¬ join.Dropped c := by
  have hadd : join.how ≠ .cross → join.how ≠ .full →
      join.secondaryFieldsToAdd.columnNames = join.secondary.columnNames.filter fun c => ¬ join.Dropped c := by
    intro hcross hfull
    rw [secondaryFieldsToAdd, Schema.columnNames, Schema.columnNames, List.filter_map]
    congr 1
    apply List.filter_congr
    intro field _
    simp [Dropped, hcross, hfull]
  have happend : ∀ s t : Schema, Schema.columnNames (s ++ t) = s.columnNames ++ t.columnNames :=
    fun s t => List.map_append
  unfold fields
  cases hhow : join.how with
  | inner | left =>
    rw [if_neg nofun, happend, hadd (by rw [hhow]; nofun) (by rw [hhow]; nofun)]
  | right =>
    rw [if_pos rfl, happend, hadd (by rw [hhow]; nofun) (by rw [hhow]; nofun)]
  | full | cross => simp [happend, Dropped, hhow, primary, secondary]

theorem mergedKeys_eq (join : Join V) {keys : List (JoinKey V)} (hkeys : keys ⊆ join.leftOn ++ join.rightOn) :
    Lineage.mergedKeys (join.leftOn.map JoinKey.convert) (join.rightOn.map JoinKey.convert) (keys.map JoinKey.convert) =
      if join.AllColumns then keys.filterMap JoinKey.columnName? else [] := by
  have hall : (join.leftOn.map JoinKey.convert ++ join.rightOn.map JoinKey.convert).all RowExpr.isColumn =
      (join.leftOn ++ join.rightOn).all fun key => key.columnName?.isSome := by
    simp [Function.comp_def]
  rw [Lineage.mergedKeys, hall]
  by_cases hcolumns : join.AllColumns
  · have hnames : ∀ key ∈ keys, key.columnName? = some (key.convert.name) := by
      intro key hkey
      have hsome := List.all_eq_true.mp hcolumns key (hkeys hkey)
      cases key with
      | column name => rfl
      | derived key => cases hsome
    rw [if_pos hcolumns]
    refine (if_pos hcolumns).trans ?_
    rw [List.filterMap_congr hnames, List.map_map]
    exact (congrFun List.filterMap_eq_map keys).symm
  · rw [if_neg hcolumns]
    exact if_neg hcolumns

end Join

section Schema

variable {join : Join V} {schema : Schema}

theorem buildSchema_inv (h : join.buildSchema = .ok schema) :
    schema = join.fields ∧ join.fields.columnNames.Nodup ∧
      (∀ key ∈ join.leftOn, ∃ t, key.dataType join.left = .ok t) ∧
      ∀ key ∈ join.rightOn, ∃ t, key.dataType join.right = .ok t := by
  obtain ⟨_, hchecks, h⟩ := Except.bind_eq_ok.mp h
  obtain ⟨hnodup, h⟩ := Except.require_eq_ok.mp h
  cases h
  have hpair : ∀ pair ∈ join.on, (∃ t, pair.1.dataType join.left = .ok t) ∧ ∃ t, pair.2.dataType join.right = .ok t := by
    intro pair hmem
    have hcheck : join.checkPair pair = .ok () := Except.forM_eq_ok.mp hchecks pair hmem
    obtain ⟨t, ht, hcheck⟩ := Except.bind_eq_ok.mp hcheck
    obtain ⟨t', ht', -⟩ := Except.bind_eq_ok.mp hcheck
    exact ⟨⟨t, ht⟩, t', ht'⟩
  refine ⟨rfl, hnodup, fun key hkey => ?_, fun key hkey => ?_⟩
  · obtain ⟨pair, hmem, rfl⟩ := List.mem_map.mp hkey
    exact (hpair pair hmem).1
  · obtain ⟨pair, hmem, rfl⟩ := List.mem_map.mp hkey
    exact (hpair pair hmem).2

variable {name : String}

/-- A name that is in both sides is dropped by the schema. -/
theorem dropped_of_common (h : join.buildSchema = .ok schema) (hprimary : name ∈ join.primary.columnNames)
    (hsecondary : name ∈ join.secondary.columnNames) : join.Dropped name := by
  obtain ⟨-, hnodup, -, -⟩ := buildSchema_inv h
  by_contra hkept
  have hmem : name ∈ join.secondary.columnNames.filter fun c => ¬ join.Dropped c := by
    rw [List.mem_filter]
    exact ⟨hsecondary, by simpa using hkept⟩
  rw [Join.fields_columnNames] at hnodup
  split at hnodup
  · exact (List.nodup_append.mp hnodup).2.2 name hmem name hprimary rfl
  · exact (List.nodup_append.mp hnodup).2.2 name hprimary name hmem rfl

/-- A column that is a key of a side is one of its columns. -/
theorem mem_of_mem_names {keys : List (JoinKey V)} {s : Schema} (htyped : ∀ key ∈ keys, ∃ t, key.dataType s = .ok t)
    (hname : name ∈ keys.filterMap JoinKey.columnName?) : name ∈ s.columnNames := by
  obtain ⟨key, hkey, hcolumnName⟩ := List.mem_filterMap.mp hname
  obtain ⟨t, ht⟩ := htyped key hkey
  cases key with
  | column name' =>
    cases hcolumnName
    exact JoinKey.roots_subset ht (List.mem_singleton.mpr rfl)
  | derived key => cases hcolumnName

theorem mem_primary_of_mem_names (h : join.buildSchema = .ok schema) (hname : name ∈ join.primaryNames) :
    name ∈ join.primary.columnNames := by
  obtain ⟨-, -, hleft, hright⟩ := buildSchema_inv h
  rw [Join.primaryNames] at hname
  rw [Join.primary]
  split at hname
  next hhow =>
      rw [if_pos hhow]
      exact mem_of_mem_names hright hname
  next hhow =>
      rw [if_neg hhow]
      exact mem_of_mem_names hleft hname

theorem mem_secondary_of_mem_names (h : join.buildSchema = .ok schema)
    (hname : name ∈ join.secondaryNames) : name ∈ join.secondary.columnNames := by
  obtain ⟨-, -, hleft, hright⟩ := buildSchema_inv h
  rw [Join.secondaryNames] at hname
  rw [Join.secondary]
  split at hname
  next hhow =>
      rw [if_pos hhow]
      exact mem_of_mem_names hleft hname
  next hhow =>
      rw [if_neg hhow]
      exact mem_of_mem_names hright hname

theorem disjoint_sides (join : Join V) : List.Disjoint join.left.columnNames join.right.columnNames ↔
    List.Disjoint join.primary.columnNames join.secondary.columnNames := by
  rw [Join.primary, Join.secondary]
  split
  · exact List.disjoint_comm
  · exact Iff.rfl

/-- The engine leaves out what the schema leaves out, of the columns of the secondary side. -/
def SameColumns (join : Join V) : Prop := ∀ c ∈ join.secondary.columnNames, c ∈ join.merged ↔ join.Dropped c

/-- When the two rules leave out the same columns, by the names and kinds of the keys. -/
theorem sameColumns_iff (h : join.buildSchema = .ok schema) : SameColumns join ↔
    join.how = .cross ∨ join.how = .full ∨ (join.AllColumns ∧ join.secondaryNames ⊆ join.primaryNames) ∨
      (¬ join.AllColumns ∧ List.Disjoint join.left.columnNames join.right.columnNames) := by
  constructor
  · intro hsame
    by_cases hcross : join.how = .cross
    · exact Or.inl hcross
    by_cases hfull : join.how = .full
    · exact Or.inr (Or.inl hfull)
    by_cases hcolumns : join.AllColumns
    · refine Or.inr (Or.inr (Or.inl ⟨hcolumns, fun c hc => ?_⟩))
      have hmerged : c ∈ join.merged := by simpa [Join.merged, hcross, hfull, hcolumns] using hc
      exact ((hsame c (mem_secondary_of_mem_names h hc)).mp hmerged).2.2.1
    · refine Or.inr (Or.inr (Or.inr ⟨hcolumns, ?_⟩))
      rw [disjoint_sides]
      intro c hprimary hsecondary
      have hmerged := (hsame c hsecondary).mpr (dropped_of_common h hprimary hsecondary)
      simp [Join.merged, hcolumns] at hmerged
  · intro hagree c hc
    rcases hagree with hcross | hfull | ⟨hcolumns, hsubset⟩ | ⟨hcolumns, hdisjoint⟩
    · simp [Join.merged, Join.Dropped, hcross]
    · simp [Join.merged, Join.Dropped, hfull]
    · by_cases hhow : join.how = .cross ∨ join.how = .full
      · rcases hhow with hhow | hhow <;> simp [Join.merged, Join.Dropped, hhow]
      · have hmerged : join.merged = join.secondaryNames := by
          rw [Join.merged, if_neg]
          tauto
        rw [hmerged]
        exact ⟨fun hname => ⟨fun h => hhow (Or.inl h), fun h => hhow (Or.inr h), hsubset hname, hname⟩, fun h => h.2.2.2⟩
    · have hmerged : join.merged = [] := by
        rw [Join.merged, if_pos (Or.inr (Or.inr hcolumns))]
      rw [hmerged]
      refine ⟨nofun, fun hdropped => ?_⟩
      rw [disjoint_sides] at hdisjoint
      exact absurd hc (hdisjoint (mem_primary_of_mem_names h hdropped.2.2.1))

end Schema

/-! ## Execution -/

variable [DecidableEq V]

/-- **The engine pairs the rows of the relational join.** -/
theorem joinPairs_rows (join : Join V) (left right : List (Row V)) :
    (((Lineage.joinPairs join.how (left.map (Lineage.groupKey (join.leftOn.map JoinKey.convert)))
      (right.map (Lineage.groupKey (join.rightOn.map JoinKey.convert)))).map (rowsAt left right) : List _) :
        Multiset (Option (Row V) × Option (Row V))) = join.rows left right := by
  generalize hleftOn : join.leftOn.map JoinKey.convert = leftOn
  generalize hrightOn : join.rightOn.map JoinKey.convert = rightOn
  have hmatched := matched_rows Lineage.keysMatch (Lineage.groupKey leftOn) (Lineage.groupKey rightOn) left right
  have hlonelyLeft := lonelyLeft_rows Lineage.keysMatch (Lineage.groupKey leftOn) (Lineage.groupKey rightOn) left right
  have hlonelyRight := lonelyRight_rows Lineage.keysMatch (Lineage.groupKey leftOn) (Lineage.groupKey rightOn) left right
  have hcross := cross_rows (Lineage.groupKey leftOn) (Lineage.groupKey rightOn) left right
  unfold Join.rows Lineage.joinPairs EquiJoin.outer
  rw [hleftOn, hrightOn]
  simp only [EquiJoin.inner_coe, EquiJoin.unmatched_coe]
  cases join.how with
  | inner =>
    simp only [hmatched, Multiset.map_coe, Bool.false_eq_true, if_false, add_zero]
    rfl
  | full =>
    simp only [List.map_append, hmatched, hlonelyLeft, hlonelyRight, Multiset.map_coe, Multiset.coe_add, if_true]
    rfl
  | left =>
    simp only [List.map_append, hmatched, hlonelyLeft, Multiset.map_coe, Multiset.coe_add, Bool.false_eq_true, if_false,
      if_true, add_zero]
    rfl
  | right =>
    simp only [List.map_append, hmatched, hlonelyRight, Multiset.map_coe, Multiset.coe_add, Bool.false_eq_true, if_false,
      if_true, add_zero]
    rfl
  | cross => simp only [hcross, Multiset.map_coe, Bool.false_eq_true, if_false, add_zero]

namespace Join

/-- The join as the engine gets it. -/
def op (join : Join V) : Lineage.JoinOp V :=
  Lineage.JoinExec (join.leftOn.map JoinKey.convert) (join.rightOn.map JoinKey.convert) join.how

theorem dropsLeft_eq (join : Join V) : join.op.dropsLeft = if join.how = .right then join.merged else [] := by
  show (if join.how = .right then _ else _) = _
  by_cases hright : join.how = .right
  · rw [if_pos hright, if_pos hright, mergedKeys_eq join (List.subset_append_left _ _)]
    simp [merged, secondaryNames, hright]
  · rw [if_neg hright, if_neg hright]

theorem dropsRight_eq (join : Join V) : join.op.dropsRight = if join.how = .right then [] else join.merged := by
  show (if join.how = .inner ∨ join.how = .left then _ else _) = _
  rw [mergedKeys_eq join (List.subset_append_right _ _)]
  cases hhow : join.how <;> simp [merged, secondaryNames, hhow]

/-- The columns of the frame that the engine makes. -/
def columns (join : Join V) (left right : Frame V) : List String :=
  join.op.leftNames left ++ (join.op.rightNames left right).map Prod.fst

end Join

section Frames

variable {join : Join V} {schema : Schema} {left right : Frame V}

/-- A cross join pairs all positions, whatever the keys are. -/
theorem joinPairs_cross (leftRows rightRows : List (Row V)) (leftKey leftKey' rightKey rightKey' : Row V → List (Cell V)) :
    Lineage.joinPairs (V := V) .cross (leftRows.map leftKey) (rightRows.map rightKey) =
      Lineage.joinPairs .cross (leftRows.map leftKey') (rightRows.map rightKey') := by
  simp only [Lineage.joinPairs, List.zipIdx_map, List.flatMap_map, List.map_map]
  rfl

/-- A join with keys that the engine takes gives a frame, unless it would have a name twice. -/
theorem executeNode_eq_some (hschema : join.buildSchema = .ok schema) (hleft : left.columns = join.left.columnNames)
    (hright : right.columns = join.right.columnNames) {frame : Frame V} :
    join.executeNode left right = some frame ↔
      (join.how = .cross ∨ join.on ≠ [] ∧ ∀ key ∈ join.leftOn ++ join.rightOn, key.hasAlias = false) ∧
        (join.columns left right).Nodup ∧
          frame = ⟨join.columns left right,
            (Lineage.joinPairs join.how (left.rows.map (Lineage.groupKey (join.leftOn.map JoinKey.convert)))
              (right.rows.map (Lineage.groupKey (join.rightOn.map JoinKey.convert)))).map (join.op.joinRow left right)⟩ := by
  have hrootsLeft : ∀ e ∈ join.op.leftOn, e.roots ⊆ left.columns := by
    intro e he
    change e ∈ (if join.how = .cross then [] else join.leftOn.map JoinKey.convert) at he
    split at he
    · cases he
    · obtain ⟨key, hkey, rfl⟩ := List.mem_map.mp he
      obtain ⟨t, ht⟩ := (buildSchema_inv hschema).2.2.1 key hkey
      rw [hleft]
      exact JoinKey.roots_subset ht
  have hrootsRight : ∀ e ∈ join.op.rightOn, e.roots ⊆ right.columns := by
    intro e he
    change e ∈ (if join.how = .cross then [] else join.rightOn.map JoinKey.convert) at he
    split at he
    · cases he
    · obtain ⟨key, hkey, rfl⟩ := List.mem_map.mp he
      obtain ⟨t, ht⟩ := (buildSchema_inv hschema).2.2.2 key hkey
      rw [hright]
      exact JoinKey.roots_subset ht
  have hop : join.op.executeNode left right =
      if (join.columns left right).Nodup then
        some ⟨join.columns left right,
          (Lineage.joinPairs join.how (left.rows.map (Lineage.groupKey join.op.leftOn))
            (right.rows.map (Lineage.groupKey join.op.rightOn))).map (join.op.joinRow left right)⟩
      else none := by
    rw [Lineage.JoinOp.executeNode, if_pos ⟨hrootsLeft, hrootsRight⟩]
    show Lineage.Frame.checkNames ⟨join.columns left right ++ [], _⟩ = _
    rw [List.append_nil]
    rfl
  have hpairs : Lineage.joinPairs (V := V) join.how (left.rows.map (Lineage.groupKey join.op.leftOn))
      (right.rows.map (Lineage.groupKey join.op.rightOn)) =
      Lineage.joinPairs join.how (left.rows.map (Lineage.groupKey (join.leftOn.map JoinKey.convert)))
      (right.rows.map (Lineage.groupKey (join.rightOn.map JoinKey.convert))) := by
    by_cases hcross : join.how = .cross
    · rw [hcross]
      exact joinPairs_cross _ _ _ _ _ _
    · have hleftOn : join.op.leftOn = join.leftOn.map JoinKey.convert := if_neg hcross
      have hrightOn : join.op.rightOn = join.rightOn.map JoinKey.convert := if_neg hcross
      rw [hleftOn, hrightOn]
  show (if _ then none else join.op.executeNode left right) = _ ↔ _
  rw [hop, hpairs]
  split
  next hrefused =>
      refine ⟨nofun, fun ⟨htaken, _⟩ => ?_⟩
      rcases htaken with hcross | ⟨hne, halias⟩
      · exact absurd hcross hrefused.1
      · rcases hrefused.2 with hempty | ⟨key, hkey, hkeyAlias⟩
        · exact absurd hempty hne
        · rw [halias key hkey] at hkeyAlias
          cases hkeyAlias
  next htaken =>
      have hkeys : join.how = .cross ∨ join.on ≠ [] ∧ ∀ key ∈ join.leftOn ++ join.rightOn, key.hasAlias = false := by
        by_cases hcross : join.how = .cross
        · exact Or.inl hcross
        · refine Or.inr ⟨fun hempty => htaken ⟨hcross, Or.inl hempty⟩, fun key hkey => ?_⟩
          by_contra halias
          exact htaken ⟨hcross, Or.inr ⟨key, hkey, by simpa using halias⟩⟩
      split
      next hnodup =>
          rw [Option.some_inj]
          exact ⟨fun h => ⟨hkeys, hnodup, h.symm⟩, fun h => h.2.2.symm⟩
      next hnodup => exact ⟨nofun, fun h => absurd h.2.1 hnodup⟩

variable {c : String}

/-- Without the columns that are left out, the sides have no name in common. -/
theorem not_mem_leftNames (hschema : join.buildSchema = .ok schema) (hleft : left.columns = join.left.columnNames)
    (hright : right.columns = join.right.columnNames) (hsame : SameColumns join) (hc : c ∈ right.columns)
    (hkept : c ∉ join.op.dropsRight) : c ∉ join.op.leftNames left := by
  intro hmem
  obtain ⟨hcleft, hcdrops⟩ := List.mem_filter.mp hmem
  rw [hleft] at hcleft
  rw [hright] at hc
  rw [Join.dropsLeft_eq, decide_eq_true_iff] at hcdrops
  rw [Join.dropsRight_eq] at hkept
  by_cases hhow : join.how = .right
  · rw [if_pos hhow] at hcdrops
    have hsecondary : c ∈ join.secondary.columnNames := by
      rw [Join.secondary, if_pos hhow]
      exact hcleft
    have hprimary : c ∈ join.primary.columnNames := by
      rw [Join.primary, if_pos hhow]
      exact hc
    exact hcdrops ((hsame c hsecondary).mpr (dropped_of_common hschema hprimary hsecondary))
  · rw [if_neg hhow] at hkept
    have hsecondary : c ∈ join.secondary.columnNames := by
      rw [Join.secondary, if_neg hhow]
      exact hc
    have hprimary : c ∈ join.primary.columnNames := by
      rw [Join.primary, if_neg hhow]
      exact hcleft
    exact hkept ((hsame c hsecondary).mpr (dropped_of_common hschema hprimary hsecondary))

/-- No column of the right side gets another name. -/
theorem rightNames_eq (hschema : join.buildSchema = .ok schema) (hleft : left.columns = join.left.columnNames)
    (hright : right.columns = join.right.columnNames) (hsame : SameColumns join) :
    join.op.rightNames left right = (right.columns.filter fun c => c ∉ join.op.dropsRight).map fun c => (c, c) := by
  apply List.map_congr_left
  intro c hc
  obtain ⟨hmem, hkept⟩ := List.mem_filter.mp hc
  rw [if_neg (not_mem_leftNames hschema hleft hright hsame hmem (of_decide_eq_true hkept))]

/-- **The columns are those of the schema** when the two rules leave out the same columns, -/
theorem columns_eq_fields (hschema : join.buildSchema = .ok schema) (hleft : left.columns = join.left.columnNames)
    (hright : right.columns = join.right.columnNames) (hsame : SameColumns join) :
    join.columns left right = join.fields.columnNames := by
  have hfilter : (join.secondary.columnNames.filter fun c => c ∉ join.merged) =
      join.secondary.columnNames.filter fun c => ¬ join.Dropped c := by
    apply List.filter_congr
    intro c hc
    rw [decide_eq_decide, hsame c hc]
  rw [Join.columns, rightNames_eq hschema hleft hright hsame, List.map_map, Join.fields_columnNames, ← hfilter,
    Lineage.JoinOp.leftNames, Join.dropsLeft_eq, Join.dropsRight_eq, hleft, hright]
  by_cases hhow : join.how = .right
  · simp [hhow, Join.secondary, Join.primary, Function.comp_def]
  · simp [hhow, Join.secondary, Join.primary, Function.comp_def]

/-- and are too many or too few otherwise. -/
theorem sameColumns_of_columns (hleft : left.columns = join.left.columnNames)
    (hright : right.columns = join.right.columnNames)
    (hcolumns : join.columns left right = join.fields.columnNames) : SameColumns join := by
  have hlength : (join.secondary.columnNames.filter fun c => c ∉ join.merged).length =
      (join.secondary.columnNames.filter fun c => ¬ join.Dropped c).length := by
    have h := congrArg List.length hcolumns
    rw [Join.columns, Lineage.JoinOp.rightNames, Lineage.JoinOp.leftNames, Join.dropsLeft_eq, Join.dropsRight_eq, hleft,
      hright, Join.fields_columnNames] at h
    by_cases hhow : join.how = .right
    · simp [hhow, Join.primary, Join.secondary] at h ⊢
      omega
    · simp [hhow, Join.primary, Join.secondary] at h ⊢
      omega
  intro c hc
  by_cases hmerges : join.how = .cross ∨ join.how = .full ∨ ¬ join.AllColumns
  · -- the engine leaves out nothing, so the schema must not either
    have hmerged : join.merged = [] := if_pos hmerges
    rw [hmerged] at hlength ⊢
    have hkept := Rows.of_length_filter_eq (fun _ _ _ => by simp) hlength.symm hc (by simp)
    exact ⟨nofun, fun hdropped => absurd hdropped (of_decide_eq_true hkept)⟩
  · have hmerged : join.merged = join.secondaryNames := if_neg hmerges
    rw [hmerged] at hlength ⊢
    refine ⟨fun hname => ?_, fun hdropped => hdropped.2.2.2⟩
    by_contra hkept
    have hless : ∀ x ∈ join.secondary.columnNames, decide (x ∉ join.secondaryNames) = true →
        decide (¬ join.Dropped x) = true := by
      intro x _ hx
      exact decide_eq_true fun hdropped => of_decide_eq_true hx hdropped.2.2.2
    exact of_decide_eq_true (Rows.of_length_filter_eq hless hlength hc (decide_eq_true hkept)) hname

theorem lookup_self {names : List String} (h : c ∈ names) :
    (names.map fun name => (name, name)).lookup c = some c := by
  induction names with
  | nil => cases h
  | cons name names ih =>
    rw [List.map_cons, List.lookup_cons]
    by_cases heq : c = name
    · simp [heq]
    · rw [beq_false_of_ne heq]
      exact ih ((List.mem_cons.mp h).resolve_left heq)

/-- The cells of a joined row are those of the pair of rows that it is made of. -/
theorem joinRow_cell (hschema : join.buildSchema = .ok schema) (hleft : left.columns = join.left.columnNames)
    (hright : right.columns = join.right.columnNames) (hsame : SameColumns join)
    (hc : c ∈ join.fields.columnNames) (pair : (Option Nat × Option Nat) × Option V) :
    join.op.joinRow left right pair c = join.cell (rowsAt left.rows right.rows pair) c := by
  have hright_cell : c ∈ right.columns → c ∉ join.op.dropsRight →
      join.op.joinRow left right pair c = Join.cellOf c (pair.1.2.bind fun j => right.rows[j]?) := by
    intro hmem hkept
    have hlookup : (join.op.rightNames left right).lookup c = some c := by
      rw [rightNames_eq hschema hleft hright hsame]
      exact lookup_self (List.mem_filter.mpr ⟨hmem, decide_eq_true hkept⟩)
    show (if (none : Option String) = some c then _ else _) = _
    rw [if_neg nofun, if_neg (not_mem_leftNames hschema hleft hright hsame hmem hkept), hlookup]
    rfl
  have hleft_cell : c ∈ left.columns → c ∉ join.op.dropsLeft →
      join.op.joinRow left right pair c = Join.cellOf c (pair.1.1.bind fun i => left.rows[i]?) := by
    intro hmem hkept
    have hleftNames : c ∈ join.op.leftNames left := List.mem_filter.mpr ⟨hmem, decide_eq_true hkept⟩
    show (if (none : Option String) = some c then _ else _) = _
    rw [if_neg nofun, if_pos hleftNames]
    rfl
  have hnotDropped : c ∈ join.secondary.columnNames.filter (fun c => ¬ join.Dropped c) → c ∉ join.merged := by
    intro hmem hmerged
    obtain ⟨hsecondary, hkept⟩ := List.mem_filter.mp hmem
    exact of_decide_eq_true hkept ((hsame c hsecondary).mp hmerged)
  rw [Join.fields_columnNames] at hc
  rw [Join.cell]
  by_cases hhow : join.how = .right
  · rw [if_pos hhow, List.mem_append] at hc
    rw [if_pos hhow]
    by_cases hmem : c ∈ join.right.columnNames
    · rw [if_pos hmem]
      exact hright_cell (hright ▸ hmem) (by rw [Join.dropsRight_eq, if_pos hhow]; exact List.not_mem_nil)
    · rw [if_neg hmem]
      rcases hc with hc | hc
      · refine hleft_cell ?_ (by rw [Join.dropsLeft_eq, if_pos hhow]; exact hnotDropped hc)
        rw [hleft]
        simpa [Join.secondary, hhow] using (List.mem_filter.mp hc).1
      · exact absurd (by simpa [Join.primary, hhow] using hc) hmem
  · rw [if_neg hhow, List.mem_append] at hc
    rw [if_neg hhow]
    by_cases hmem : c ∈ join.left.columnNames
    · rw [if_pos hmem]
      exact hleft_cell (hleft ▸ hmem) (by rw [Join.dropsLeft_eq, if_neg hhow]; exact List.not_mem_nil)
    · rw [if_neg hmem]
      rcases hc with hc | hc
      · exact absurd (by simpa [Join.primary, hhow] using hc) hmem
      · refine hright_cell ?_ (by rw [Join.dropsRight_eq, if_neg hhow]; exact hnotDropped hc)
        rw [hright]
        simpa [Join.secondary, hhow] using (List.mem_filter.mp hc).1

end Frames

/-! ## Agreement -/

/-- **A join is the relational join of its schema exactly when its keys agree.** -/
theorem executeNode_relational_iff (join : Join V) (schema : Schema) (left right : Frame V)
    (hschema : join.buildSchema = .ok schema) (hleft : left.columns = join.left.columnNames)
    (hright : right.columns = join.right.columnNames) :
    (∃ frame, join.executeNode left right = some frame ∧ frame.columns = schema.columnNames ∧
      (frame.tuples : Multiset (List (Cell V))) = (join.rows left.rows right.rows).map join.tuple) ↔ join.KeysAgree := by
  obtain ⟨rfl, hnodup, -, -⟩ := buildSchema_inv hschema
  constructor
  · rintro ⟨frame, hframe, hcolumns, -⟩
    obtain ⟨hkeys, -, rfl⟩ := (executeNode_eq_some hschema hleft hright).mp hframe
    have hsame := (sameColumns_iff hschema).mp (sameColumns_of_columns hleft hright hcolumns)
    rcases hkeys with hcross | ⟨hne, halias⟩
    · exact Or.inl hcross
    · rcases hsame with hcross | hsame
      · exact Or.inl hcross
      · exact Or.inr ⟨hne, halias, hsame⟩
  · intro hagree
    have hsame : SameColumns join := by
      rw [sameColumns_iff hschema]
      rcases hagree with hcross | ⟨-, -, hsame⟩
      · exact Or.inl hcross
      · exact Or.inr hsame
    have hkeys : join.how = .cross ∨ join.on ≠ [] ∧ ∀ key ∈ join.leftOn ++ join.rightOn, key.hasAlias = false :=
      hagree.imp id fun h => ⟨h.1, h.2.1⟩
    have hcolumns := columns_eq_fields hschema hleft hright hsame
    refine ⟨_, (executeNode_eq_some hschema hleft hright).mpr ⟨hkeys, hcolumns ▸ hnodup, rfl⟩, hcolumns, ?_⟩
    rw [← joinPairs_rows, Multiset.map_coe, List.map_map, Frame.tuples, List.map_map]
    congr 1
    apply List.map_congr_left
    intro pair _
    show (join.columns left right).map (join.op.joinRow left right pair) = join.tuple (rowsAt left.rows right.rows pair)
    rw [hcolumns]
    exact List.map_congr_left fun c hc => joinRow_cell hschema hleft hright hsame hc pair

/-- People and their pets, by the id of the person. -/
def peopleAndPets (leftKey rightKey : String) (left right : Schema) (hleft : left.columnNames.Nodup)
    (hright : right.columnNames.Nodup) : Join Nat :=
  ⟨left, right, hleft, hright, [(.column leftKey, .column rightKey)], .inner⟩

def people (key : String) : Frame Nat :=
  ⟨[key, "age"], [fun name => if name = key then .val 1 else .val 30, fun name => if name = key then .val 2 else .val 40]⟩

def pets (key : String) : Frame Nat :=
  ⟨[key, "legs"], [fun name => if name = key then .val 2 else .val 4]⟩

def byId : Join Nat :=
  peopleAndPets "id" "id" [⟨"id", .integerType⟩, ⟨"age", .integerType⟩] [⟨"id", .integerType⟩, ⟨"legs", .integerType⟩]
    (by decide) (by decide)

theorem byId_relational : ∃ frame, byId.executeNode (people "id") (pets "id") = some frame ∧
    frame.columns = ["id", "age", "legs"] ∧
      (frame.tuples : Multiset (List (Cell Nat))) = (byId.rows (people "id").rows (pets "id").rows).map byId.tuple :=
  (executeNode_relational_iff byId byId.fields (people "id") (pets "id") (by decide) rfl rfl).mpr
    (Or.inr ⟨by decide, by decide, Or.inr (Or.inl ⟨by decide, by decide⟩)⟩)

def byIds : Join Nat :=
  peopleAndPets "id1" "id2" [⟨"id1", .integerType⟩, ⟨"age", .integerType⟩] [⟨"id2", .integerType⟩, ⟨"legs", .integerType⟩]
    (by decide) (by decide)

/-- **Keys of different names**: the schema has both, and the engine leaves one out. -/
theorem byIds_not_relational : ¬ ∀ (join : Join Nat) (schema : Schema) (left right : Frame Nat),
    join.buildSchema = .ok schema → left.columns = join.left.columnNames → right.columns = join.right.columnNames →
      ∃ frame, join.executeNode left right = some frame ∧ frame.columns = schema.columnNames ∧
        (frame.tuples : Multiset (List (Cell Nat))) = (join.rows left.rows right.rows).map join.tuple := by
  intro h
  obtain ⟨frame, hframe, hcolumns, -⟩ := h byIds byIds.fields (people "id1") (pets "id2") (by decide) rfl rfl
  have hengine : frame.columns = ["id1", "age", "legs"] := by
    have hsome : (byIds.executeNode (people "id1") (pets "id2")).map Frame.columns = some ["id1", "age", "legs"] := by decide
    rw [hframe] at hsome
    exact Option.some_inj.mp hsome
  have hschema : byIds.fields.columnNames = ["id1", "age", "id2", "legs"] := by decide
  rw [hengine, hschema] at hcolumns
  exact absurd hcolumns (by decide)

end Joins

end Fenic
