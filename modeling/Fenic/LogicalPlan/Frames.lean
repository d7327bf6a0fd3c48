import Fenic.LogicalPlan.Plan
import Mathlib.Data.List.Enum

/-!
# `LogicalPlan.Frames` — predicates that look at the whole frame

`denote` gives a leaf predicate a truth value on a row. A predicate with an aggregate inside has none: its value depends on
the frame that the filter runs on, and the constructor of a filter looks at the top of its predicate only. So here a leaf
has a truth value at each position of a frame, and `RowWise` says of a predicate that the frame does not matter. A row-wise
predicate may be evaluated before or behind another filter (`select_and`, `selectAll_map_fst`).
-/

namespace Fenic

variable {A : Type}

/-- What each operator does to the rows of its inputs, and the truth value of each leaf at the positions of a frame. -/
structure FrameInterp (A Row : Type) where
  op : PlanOp A → List (List Row) → List Row
  leaf : LogicalExpr A → List Row → Nat → Kleene.Truth

namespace FrameInterp

variable {Row : Type} (I : FrameInterp A Row)

/-- The leaves on one frame, as an interpretation over its rows with their positions. -/
def onFrame (frame : List Row) : Interp A (Row × Nat) where
  op _ _ := []
  leaf e position := I.leaf e frame position.2

/-- The truth value of a predicate at a position of a frame. -/
def truth (frame : List Row) (e : LogicalExpr A) (position : Row × Nat) : Kleene.Truth :=
  e.meaning (I.onFrame frame).leaf position

/-- The rows of a frame at whose positions a predicate is true. -/
def select (e : LogicalExpr A) (frame : List Row) : List Row :=
  (Kleene.select (I.truth frame e) frame.zipIdx).map Prod.fst

mutual

/-- The rows of a plan, in order. -/
def rows : LogicalPlan A → List Row
  | .filter input predicate _ _ => I.select predicate (rows input)
  | .node op children _ _ => I.op op (rowsAll children)

def rowsAll : List (LogicalPlan A) → List (List Row)
  | [] => []
  | p :: ps => rows p :: rowsAll ps

end

/-! ## Row-wise predicates -/

/-- A truth value that a row has wherever it stands. -/
def IsValue (e : LogicalExpr A) (value : Row → Kleene.Truth) : Prop :=
  ∀ frame : List Row, ∀ position ∈ frame.zipIdx, I.truth frame e position = value position.1

/-- Every leaf of the predicate has such a truth value. -/
def RowWise : LogicalExpr A → Prop
  | .not e => RowWise e
  | .boolean l r _ => RowWise l ∧ RowWise r
  | e => ∃ value, I.IsValue e value

variable {I}

theorem exists_value : ∀ e : LogicalExpr A, I.RowWise e → ∃ value, I.IsValue e value
  | .not e, h => by
    obtain ⟨value, hvalue⟩ := exists_value e h
    refine ⟨fun row => Kleene.not (value row), fun frame position hposition => ?_⟩
    exact congrArg Kleene.not (hvalue frame position hposition)
  | .boolean l r .and, h => by
    obtain ⟨value, hvalue⟩ := exists_value l h.1
    obtain ⟨value', hvalue'⟩ := exists_value r h.2
    refine ⟨fun row => Kleene.and (value row) (value' row), fun frame position hposition => ?_⟩
    exact congrArg₂ Kleene.and (hvalue frame position hposition) (hvalue' frame position hposition)
  | .boolean l r .or, h => by
    obtain ⟨value, hvalue⟩ := exists_value l h.1
    obtain ⟨value', hvalue'⟩ := exists_value r h.2
    refine ⟨fun row => Kleene.or (value row) (value' row), fun frame position hposition => ?_⟩
    exact congrArg₂ Kleene.or (hvalue frame position hposition) (hvalue' frame position hposition)
  | .column _, h => h
  | .alias _ _, h => h
  | .sort _ _ _, h => h
  | .other _ _ _, h => h

/-! ## Selections -/

/-- A row-wise predicate selects among positions as its value does among rows. -/
theorem select_map_fst {e : LogicalExpr A} {value : Row → Kleene.Truth} (h : I.IsValue e value) {frame : List Row}
    {positions : List (Row × Nat)} (hpositions : ∀ position ∈ positions, position ∈ frame.zipIdx) :
    (Kleene.select (I.truth frame e) positions).map Prod.fst = Kleene.select value (positions.map Prod.fst) := by
  unfold Kleene.select
  rw [List.filter_map]
  congr 1
  refine List.filter_congr fun position hposition => ?_
  rw [h frame position (hpositions position hposition)]
  rfl

theorem select_eq {e : LogicalExpr A} {value : Row → Kleene.Truth} (h : I.IsValue e value) (frame : List Row) :
    I.select e frame = Kleene.select value frame := by
  unfold select
  rw [select_map_fst h fun _ hposition => hposition, List.zipIdx_map_fst]

/-- A row-wise predicate may be evaluated behind another filter. -/
theorem select_and {l r : LogicalExpr A} (h : I.RowWise l) (frame : List Row) :
    I.select (.boolean l r .and) frame = I.select l (I.select r frame) := by
  obtain ⟨value, hvalue⟩ := exists_value l h
  have hsub : ∀ position ∈ Kleene.select (I.truth frame r) frame.zipIdx, position ∈ frame.zipIdx :=
    fun position hposition => (List.mem_filter.mp hposition).1
  calc I.select (.boolean l r .and) frame
      = (Kleene.select (I.truth frame l) (Kleene.select (I.truth frame r) frame.zipIdx)).map Prod.fst :=
        congrArg _ (Kleene.select_and _ _ _)
    _ = Kleene.select value (I.select r frame) := select_map_fst hvalue hsub
    _ = I.select l (I.select r frame) := (select_eq hvalue _).symm

/-- A chain of row-wise predicates may be evaluated behind another filter. -/
theorem selectAll_map_fst {es : List (LogicalExpr A)} (h : ∀ e ∈ es, I.RowWise e) {frame : List Row}
    {positions : List (Row × Nat)} (hpositions : ∀ position ∈ positions, position ∈ frame.zipIdx) :
    (Kleene.selectAll (es.map (I.truth frame)) positions).map Prod.fst =
      es.foldl (fun rows e => I.select e rows) (positions.map Prod.fst) := by
  induction es generalizing positions with
  | nil => rfl
  | cons e es ih =>
    obtain ⟨value, hvalue⟩ := exists_value e (h e List.mem_cons_self)
    rw [List.map_cons, Kleene.selectAll_cons, List.foldl_cons, select_eq hvalue, ← select_map_fst hvalue hpositions]
    refine ih (fun e' he' => h e' (List.mem_cons_of_mem _ he')) fun position hposition => ?_
    exact hpositions position (List.mem_filter.mp hposition).1

end FrameInterp

end Fenic
