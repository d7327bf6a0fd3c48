import Fenic.Lineage.Soundness

/-!
# `Lineage.Traversal` — stepping through a lineage graph

`LocalLineage` walks over the graph, one operator at a time: `forwards` goes to the parent of the current
operator, `backwards` to one of its children. The two should be adjoint: a row comes forward from another
exactly when the other comes back from it. `forwards` always reads the mapping table of the parent's first
child, so the law fails for a right child as soon as it has contributed a row.
-/

namespace Fenic

namespace Lineage

variable {V : Type} [DecidableEq V]

/-- The operator that is reached from another by a path of child indices. -/
def OperatorLineage.nodeAt : OperatorLineage V → List Nat → Option (OperatorLineage V)
  | op, [] => some op
  | op, k :: path => (op.children[k]?).bind (fun edge => edge.2.nodeAt path)

/-- A graph and the current operator, as the path to it. -/
structure LocalLineage (V : Type) where
  root : OperatorLineage V
  path : List Nat

inductive BranchSide where
  | left
  | right
  deriving DecidableEq

namespace LocalLineage

/-- The rows of a materialized table with one of some ids. -/
def rowsWith (table : Frame V) (ids : List (Cell V)) : Frame V :=
  ⟨table.columns, table.rows.filter (fun r => decide (r "_uuid" ∈ ids))⟩

/-- `forwards`: the rows of the parent made from some rows of the current operator. -/
def forwards (lineage : LocalLineage V) (rowIds : List Nat) : Option (Frame V × LocalLineage V) :=
  if lineage.path = [] then none
  else
    (lineage.root.nodeAt lineage.path.dropLast).bind (fun parent =>
      -- the mapping of the first child, whichever child the current operator is
      (parent.children[0]?).map (fun edge =>
        let mapped := edge.1.filter (fun pair => decide (pair.2 ∈ rowIds.map Cell.rowId))
        (rowsWith parent.materializeTable (mapped.map Prod.fst).dedup, { lineage with path := lineage.path.dropLast })))

/-- `_backwards` through one child. -/
def backwardsThrough (lineage : LocalLineage V) (ids : List Nat) (k : Nat)
    (edge : Mapping V × OperatorLineage V) : Frame V × LocalLineage V :=
  let mapped := edge.1.filter (fun pair => decide (pair.1 ∈ ids.map Cell.rowId))
  (rowsWith edge.2.materializeTable (mapped.map Prod.snd).dedup, { lineage with path := lineage.path ++ [k] })

/-- `backwards`: the rows of a child that some rows of the current operator were made from. -/
def backwards (lineage : LocalLineage V) (ids : List Nat) (branchSide : Option BranchSide) :
    Option (Frame V × LocalLineage V) :=
  (lineage.root.nodeAt lineage.path).bind (fun op =>
    -- a side is required for several children, and refused for one
    if (1 < op.children.length) = (branchSide = none) then none
    else
      let k := if branchSide = some .right then 1 else 0
      (op.children[k]?).map (lineage.backwardsThrough ids k))

end LocalLineage

/-! ## The law -/

/-- The argument that takes `backwards` to the child `k`. -/
def branchSideOf (op : OperatorLineage V) (k : Nat) : Option BranchSide :=
  if 1 < op.children.length then some (if k = 0 then .left else .right) else none

/-- **Forwards and backwards are adjoint** between the operator at `path` and its child `k`. -/
def Adjoint (root : OperatorLineage V) (path : List Nat) (op : OperatorLineage V) (k : Nat)
    (child : OperatorLineage V) : Prop :=
  ∀ xs ys : List Nat, (∀ x ∈ xs, .rowId x ∈ child.ids) → (∀ y ∈ ys, .rowId y ∈ op.ids) →
    ∃ forward backward,
      (LocalLineage.mk root (path ++ [k])).forwards xs = some (forward, ⟨root, path⟩) ∧
        (LocalLineage.mk root path).backwards ys (branchSideOf op k) = some (backward, ⟨root, path ++ [k]⟩) ∧
          ((∃ y ∈ ys, .rowId y ∈ forward.ids) ↔ ∃ x ∈ xs, .rowId x ∈ backward.ids)

variable {table : Frame V}

/-- Which ids a table has among some. -/
theorem mem_ids_rowsWith {ids : List (Cell V)} {id : Cell V} :
    id ∈ (LocalLineage.rowsWith table ids).ids ↔ id ∈ table.ids ∧ id ∈ ids := by
  simp only [LocalLineage.rowsWith, Frame.ids, List.mem_map, List.mem_filter, decide_eq_true_eq]
  constructor
  · rintro ⟨r, ⟨hr, hid⟩, rfl⟩
    exact ⟨⟨r, hr, rfl⟩, hid⟩
  · rintro ⟨⟨r, hr, rfl⟩, hid⟩
    exact ⟨r, ⟨hr, hid⟩, rfl⟩

variable {mapping : Mapping V}

/-- What `forwards` returns, in terms of the mapping of the first child. -/
theorem mem_forwards {xs : List Nat} {y : Nat} :
    .rowId y ∈ (LocalLineage.rowsWith table
        ((mapping.filter (fun pair => decide (pair.2 ∈ xs.map Cell.rowId))).map Prod.fst).dedup).ids ↔
      .rowId y ∈ table.ids ∧ ∃ x ∈ xs, (.rowId y, .rowId x) ∈ mapping := by
  rw [mem_ids_rowsWith, List.mem_dedup]
  refine and_congr_right (fun _ => ?_)
  constructor
  · intro hmem
    obtain ⟨⟨id, back⟩, hpair, heq⟩ := List.mem_map.mp hmem
    obtain ⟨hpair, hback⟩ := List.mem_filter.mp hpair
    obtain ⟨x, hx, hxback⟩ := List.mem_map.mp (of_decide_eq_true hback)
    cases heq
    cases hxback
    exact ⟨x, hx, hpair⟩
  · rintro ⟨x, hx, hpair⟩
    refine List.mem_map.mpr ⟨(.rowId y, .rowId x), List.mem_filter.mpr ⟨hpair, ?_⟩, rfl⟩
    exact decide_eq_true (List.mem_map_of_mem hx)

/-- What `backwards` returns, in terms of the mapping of the child. -/
theorem mem_backwards {ys : List Nat} {x : Nat} :
    .rowId x ∈ (LocalLineage.rowsWith table
        ((mapping.filter (fun pair => decide (pair.1 ∈ ys.map Cell.rowId))).map Prod.snd).dedup).ids ↔
      .rowId x ∈ table.ids ∧ ∃ y ∈ ys, (.rowId y, .rowId x) ∈ mapping := by
  rw [mem_ids_rowsWith, List.mem_dedup]
  refine and_congr_right (fun _ => ?_)
  constructor
  · intro hmem
    obtain ⟨⟨id, back⟩, hpair, heq⟩ := List.mem_map.mp hmem
    obtain ⟨hpair, hid⟩ := List.mem_filter.mp hpair
    obtain ⟨y, hy, hyid⟩ := List.mem_map.mp (of_decide_eq_true hid)
    cases heq
    cases hyid
    exact ⟨y, hy, hpair⟩
  · rintro ⟨y, hy, hpair⟩
    refine List.mem_map.mpr ⟨(.rowId y, .rowId x), List.mem_filter.mpr ⟨hpair, ?_⟩, rfl⟩
    exact decide_eq_true (List.mem_map_of_mem hy)

variable {root op : OperatorLineage V} {path : List Nat}

omit [DecidableEq V] in
/-- The operators of a sound graph are sound. -/
theorem Sound.nodeAt (h : Sound root)
    (hop : root.nodeAt path = some op) : Sound op := by
  induction path generalizing root with
  | nil =>
    cases hop
    exact h
  | cons k path ih =>
    obtain ⟨edge, hedge, hrest⟩ := Option.bind_eq_some_iff.mp hop
    cases h with
    | mk df children nodup rowIds arity mapsInto disjoint sound =>
      exact ih (sound edge (List.mem_of_getElem? hedge)) hrest

/-- The calls of the law, at an operator with a child `k`. -/
theorem calls_eq {child : OperatorLineage V} {k : Nat}
    {first : Mapping V} {firstChild : OperatorLineage V} (hop : root.nodeAt path = some op)
    (harity : op.children.length ≤ 2) (hfirst : op.children[0]? = some (first, firstChild))
    (hedge : op.children[k]? = some (mapping, child)) (xs ys : List Nat) :
    (LocalLineage.mk root (path ++ [k])).forwards xs =
        some (LocalLineage.rowsWith op.materializeTable
          ((first.filter (fun pair => decide (pair.2 ∈ xs.map Cell.rowId))).map Prod.fst).dedup, ⟨root, path⟩) ∧
      (LocalLineage.mk root path).backwards ys (branchSideOf op k) =
        some (LocalLineage.rowsWith child.materializeTable
          ((mapping.filter (fun pair => decide (pair.1 ∈ ys.map Cell.rowId))).map Prod.snd).dedup,
            ⟨root, path ++ [k]⟩) := by
  have hk : k < op.children.length := (List.getElem?_eq_some_iff.mp hedge).1
  constructor
  · simp only [LocalLineage.forwards, List.append_eq_nil_iff, List.cons_ne_nil, and_false, if_false,
      List.dropLast_concat, hop, Option.bind_some, hfirst, Option.map_some]
  · have hside : ¬ ((1 < op.children.length) = (branchSideOf op k = none)) := by
      unfold branchSideOf
      split <;> simp [*]
    have hindex : (if branchSideOf op k = some .right then 1 else 0) = k := by
      unfold branchSideOf
      by_cases hlength : 1 < op.children.length
      · by_cases hzero : k = 0
        · simp [hlength, hzero]
        · have hone : k = 1 := by omega
          simp [hlength, hone]
      · have hzero : k = 0 := by omega
        simp [hlength, hzero]
    simp only [LocalLineage.backwards, hop, Option.bind_some, if_neg hside, hindex, hedge, Option.map_some,
      LocalLineage.backwardsThrough]

/-- **The law holds between an operator and its child exactly when the child is the first one, or has
    contributed no row.** -/
theorem adjoint_iff_of_sound {child : OperatorLineage V} {k : Nat}
    (hsound : Sound root) (hop : root.nodeAt path = some op)
    (hedge : op.children[k]? = some (mapping, child)) :
    Adjoint root path op k child ↔ k = 0 ∨ ∀ pair ∈ mapping, pair.2 = .null := by
  cases hsound.nodeAt hop with
  | mk df children nodup rowIds arity mapsInto disjoint sound =>
    simp only [OperatorLineage.children] at hedge
    have hk : k < children.length := (List.getElem?_eq_some_iff.mp hedge).1
    obtain ⟨⟨first, firstChild⟩, hfirst⟩ : ∃ edge, children[0]? = some edge :=
      ⟨children[0], List.getElem?_eq_getElem (by omega)⟩
    have hcalls := calls_eq hop arity hfirst hedge
    have hmaps := mapsInto _ (List.mem_of_getElem? hedge)
    have hmapsFirst := mapsInto _ (List.mem_of_getElem? hfirst)
    -- the ids of the first child are not those of another one
    have hdisjoint : k ≠ 0 → List.Disjoint firstChild.ids child.ids := by
      intro hne
      have hpair := List.pairwise_iff_getElem.mp disjoint 0 k (by omega) hk (by omega)
      rwa [(List.getElem?_eq_some_iff.mp hfirst).2, (List.getElem?_eq_some_iff.mp hedge).2] at hpair
    constructor
    · intro hadjoint
      by_cases hzero : k = 0
      · exact Or.inl hzero
      · refine Or.inr (fun pair hpair => ?_)
        obtain ⟨hid, hback⟩ := hmaps pair hpair
        rcases hback with hback | hnull
        · -- a row of the child that was mapped comes back, but does not come forward
          obtain ⟨y, hy⟩ := rowIds pair.1 hid
          obtain ⟨x, hx⟩ : ∃ x, pair.2 = .rowId x := by
            cases sound _ (List.mem_of_getElem? hedge) with
            | mk df' children' nodup' rowIds' arity' mapsInto' disjoint' sound' => exact rowIds' pair.2 hback
          have hxs : ∀ x' ∈ [x], .rowId x' ∈ child.ids := by
            intro x' hx'
            rw [List.mem_singleton.mp hx', ← hx]
            exact hback
          have hys : ∀ y' ∈ [y], .rowId y' ∈ (OperatorLineage.mk df children).ids := by
            intro y' hy'
            rw [List.mem_singleton.mp hy', ← hy]
            exact hid
          obtain ⟨forward, backward, hforward, hbackward, hiff⟩ := hadjoint [x] [y] hxs hys
          rw [(hcalls [x] [y]).1] at hforward
          rw [(hcalls [x] [y]).2] at hbackward
          cases hforward
          cases hbackward
          have hmem : (Cell.rowId y, Cell.rowId x) ∈ mapping := by
            rw [← hy, ← hx]
            exact hpair
          have hcomesBack : .rowId x ∈ (LocalLineage.rowsWith child.materializeTable ((mapping.filter
              (fun pair => decide (pair.1 ∈ [y].map Cell.rowId))).map Prod.snd).dedup).ids :=
            mem_backwards.mpr ⟨hx ▸ hback, y, List.mem_singleton.mpr rfl, hmem⟩
          obtain ⟨y', hy', hcomes⟩ := hiff.mpr ⟨x, List.mem_singleton.mpr rfl, hcomesBack⟩
          obtain ⟨-, x', hx', hfirstPair⟩ := mem_forwards.mp hcomes
          rw [List.mem_singleton.mp hx'] at hfirstPair
          rcases (hmapsFirst _ hfirstPair).2 with hin | hnull
          · exact absurd (hx ▸ hback) (hdisjoint hzero hin)
          · cases hnull
        · exact hnull
    · intro hcondition xs ys hxs hys
      refine ⟨_, _, (hcalls xs ys).1, (hcalls xs ys).2, ?_⟩
      simp only [mem_forwards, mem_backwards]
      rcases hcondition with hzero | hnone
      · -- one mapping table serves both directions
        subst hzero
        rw [hfirst] at hedge
        cases hedge
        constructor
        · rintro ⟨y, hy, -, x, hx, hpair⟩
          exact ⟨x, hx, hxs x hx, y, hy, hpair⟩
        · rintro ⟨x, hx, -, y, hy, hpair⟩
          exact ⟨y, hy, hys y hy, x, hx, hpair⟩
      · constructor
        · rintro ⟨y, hy, -, x, hx, hpair⟩
          by_cases hzero : k = 0
          · subst hzero
            rw [hfirst] at hedge
            cases hedge
            exact ⟨x, hx, hxs x hx, y, hy, hpair⟩
          · rcases (hmapsFirst _ hpair).2 with hin | hnull
            · exact absurd (hxs x hx) (hdisjoint hzero hin)
            · cases hnull
        · rintro ⟨x, hx, -, y, hy, hpair⟩
          cases hnone _ hpair

/-- **The law in the graphs of plans.** -/
theorem adjoint_iff [ColumnValue V] (plan : Plan V) (store : Store V) (supply : Nat) (built : Built V)
    (hclear : ClearOfIds (plan.names store)) (hbuilt : plan.buildNodeLineage store supply = some built)
    (path : List Nat) (op : OperatorLineage V) (hop : built.operator.nodeAt path = some op) (k : Nat)
    (mapping : Mapping V) (child : OperatorLineage V) (hedge : op.children[k]? = some (mapping, child)) :
    Adjoint built.operator path op k child ↔ k = 0 ∨ ∀ pair ∈ mapping, pair.2 = .null :=
  adjoint_iff_of_sound (build_sound hclear hbuilt).sound hop hedge

/-! ### A union of two rows -/

theorem nodup_name : ["name"].Nodup := by decide

/-- One row of each side; their ids are 0 and 1, and those of the result 2 and 3. -/
def unionPlan : Plan String :=
  .binary .union none (.scan "left" { columns := ["name"], rows := [fun _ => some "Ann"], nodup := nodup_name })
    (.scan "right" { columns := ["name"], rows := [fun _ => some "Bob"], nodup := nodup_name })

theorem unionPlan_adjoint_left :
    ∃ built op mapping child, unionPlan.buildNodeLineage (fun _ => none) 0 = some built ∧
      built.operator.nodeAt [] = some op ∧ op.children[0]? = some (mapping, child) ∧
        Adjoint built.operator [] op 0 child :=
  ⟨_, _, _, _, rfl, rfl, rfl,
    (adjoint_iff unionPlan (fun _ => none) 0 _ (by decide) rfl [] _ rfl 0 _ _ rfl).mpr (Or.inl rfl)⟩

/-- **The row of the right side comes back from row 3, but nothing comes forward from it.** -/
theorem unionPlan_right_lost :
    ∃ built forward backward,
      unionPlan.buildNodeLineage (fun _ => none) 0 = some built ∧
        (LocalLineage.mk built.operator []).backwards [3] (some .right) = some (backward, ⟨built.operator, [1]⟩) ∧
          backward.ids = [.rowId 1] ∧
            (LocalLineage.mk built.operator [1]).forwards [1] = some (forward, ⟨built.operator, []⟩) ∧
              forward.ids = [] :=
  ⟨_, _, _, rfl, rfl, rfl, rfl, rfl⟩

end Lineage

end Fenic
